import StepRunner.Step.Basic
import StepRunner.Fault
import StepRunner.RunFile.Instruction
import StepRunner.Text.Numeral

/-!
# Compiling instructions

A step line `name,config,repeat` becomes a step. The name has four parts with `__` between them;
the configuration file is the field as written, or the field in the directory of that name below
the resources root, or none; a repeat count that is left out is 0. The root being text, so are the
names of all configuration files that are found.
-/

namespace StepRunner

open RunFile (Instruction)

inductive CompileError where
  | badName (blame : Instruction) (name : String) (parts : Nat)
  | badRepeat (blame : Instruction) (raw : String) (cause : Text.NumeralError)
  deriving DecidableEq, Repr

def CompileError.fault : CompileError → Fault
  | badName i name parts =>
    { kind := .compile
      message := s!"Step name '{name}' has {parts} part(s), expected 4"
      source := some i.source
      span := some i.span
      help := some "Step names are 'id__Class__Interface__Function'" }
  | badRepeat i raw cause =>
    { kind := .compile
      message := s!"Invalid repeat count '{raw}': {cause.message}"
      source := some i.source
      span := some i.span }

namespace Step

/-- The trimmed fields of a step line; one that is left out is empty. -/
structure Fields where
  name : List Char
  config : List Char
  repeats : List Char
  deriving DecidableEq, Repr

def Fields.ofText (text : String) : Fields :=
  let fields := (Text.splitAt ',' text.toList).map Text.trim
  ⟨fields.getD 0 [], fields.getD 1 [], fields.getD 2 []⟩

/-- The configuration file that a field names. -/
def findConfig (files : FileTree) (root : Path) (name config : String) : Option Path :=
  if config = "" then none
  else [⟨config⟩, (root.join name).join config].find? files.isFile

/-- A repeat count; an empty one is 0. -/
def readRepeats (raw : List Char) : Except Text.NumeralError UInt32 :=
  if raw = [] then .ok 0 else (Text.readNumeral UInt32.size raw).map Nat.toUInt32

def compile (files : FileTree) (root : Path) (i : Instruction) : Except CompileError Step :=
  let fields := Fields.ofText i.text
  let name := String.ofList fields.name
  match Text.splitDouble '_' fields.name with
  | [_, cls, iface, function] =>
    match readRepeats fields.repeats with
    | .ok repeats => .ok {
        name
        className := String.ofList cls
        interfaceName := String.ofList iface
        functionName := String.ofList function
        configFile := (findConfig files root name (String.ofList fields.config)).map .path
        repeats
        passed := false
        elapsed := .zero
        attempts := 0 }
    | .error e => .error (.badRepeat i (String.ofList fields.repeats) e)
  | parts => .error (.badName i name parts.length)

/-- The steps of a run-file, in order; the first line that is no step refuses them all. -/
def compileAll (files : FileTree) (root : Path) (is : List Instruction) :
    Except CompileError (List Step) :=
  is.mapM (compile files root)

end Step

end StepRunner
