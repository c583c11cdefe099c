import StepRunner.Path
import StepRunner.Text.Numeral

/-!
# Command lines

The commands and how they are written: the name of a command, one file, and options in any order,
each at most once. The value of an option stands behind `=` or as the next argument; behind `--`
nothing is an option. Arguments are read from the left, and the first thing that is wrong or asks
for help decides.
-/

namespace StepRunner

/-- What overrides the configuration file. -/
structure Overrides where
  timeoutSeconds : Option Nat := none
  resourcesRoot : Option Path := none
  debugDir : Option Path := none
  logFile : Option String := none
  abortOnFault : Bool := false
  deriving DecidableEq, Repr

structure RunOptions where
  file : Path
  /-- The stub library. -/
  library : Option Path := none
  config : Option Path := none
  overrides : Overrides := {}
  report : Option Path := none
  jsonReport : Option Path := none
  deriving DecidableEq, Repr

inductive Command where
  | run (o : RunOptions)
  | parse (file : Path)
  | compile (file : Path) (config resourcesRoot : Option Path)
  deriving DecidableEq, Repr

/-- Why arguments do not give a command. -/
inductive UsageError where
  | noCommand
  | unknownCommand (name : String)
  | unknownArgument (text : String)
  | valueMissing (option : String)
  | valueInvalid (name value : String)
  | valueUnexpected (option : String)
  | repeated (option : String)
  | fileMissing
  deriving DecidableEq, Repr

def UsageError.message : UsageError → String
  | noCommand => "a command is required"
  | unknownCommand name => s!"unrecognized command '{name}'"
  | unknownArgument text => s!"unexpected argument '{text}' found"
  | valueMissing option => s!"a value is required for '--{option}'"
  | valueInvalid name value => s!"invalid value '{value}' for '{name}'"
  | valueUnexpected option => s!"unexpected value for '--{option}' found"
  | repeated option => s!"the argument '--{option}' cannot be used multiple times"
  | fileMissing => "the run-file is required"

/-- What is asked for instead of a command, or done wrong. -/
inductive Detour where
  | help
  | version
  | usage (e : UsageError)
  deriving DecidableEq, Repr

namespace Command

/-! ### Options -/

inductive ValueKind where
  | path
  | number
  | text
  /-- The option is there or not. -/
  | flag
  deriving DecidableEq, Repr

/-- The options of a command by name. -/
abbrev Options := List (String × ValueKind)

def compileOptions : Options := [("resources", .path), ("config", .path)]

def runOptions : Options :=
  compileOptions ++ [("proxy", .path), ("timeout", .number), ("debug-dir", .path),
    ("report", .path), ("json-report", .path), ("abort-on-fault", .flag), ("log-file", .text)]

def number? (value : String) : Option Nat :=
  (Text.readNumeral UInt64.size value.toList).toOption

def ValueKind.admits (value : String) : ValueKind → Bool
  | path => !value.isEmpty
  | number => (number? value).isSome
  | text | flag => true

/-- What stands behind the name of a command. -/
structure Given where
  file : Option String := none
  options : List (String × String) := []

namespace Given

def addFile (g : Given) (value : String) : Except Detour Given :=
  if g.file.isSome then .error (.usage (.unknownArgument value))
  else if ValueKind.path.admits value then .ok { g with file := some value }
  else .error (.usage (.valueInvalid "<FILE>" value))

def addOption (g : Given) (name : String) (kind : ValueKind) (value : String) :
    Except Detour Given :=
  if (g.options.lookup name).isSome then .error (.usage (.repeated name))
  else if kind.admits value then .ok { g with options := (name, value) :: g.options }
  else .error (.usage (.valueInvalid ("--" ++ name) value))

def path? (g : Given) (name : String) : Option Path := (g.options.lookup name).map Path.mk

end Given

/-- Whether an argument looks like an option; a lone `-` does not. -/
def isDashed (a : String) : Bool := a.startsWith "-" && a ≠ "-"

/-- The name and, behind `=`, the value of `--name=value`. -/
def splitLong (a : String) : String × Option String :=
  let body := a.toList.drop 2
  let name := body.takeWhile (· ≠ '=')
  (String.ofList name,
    (body.dropWhile (· ≠ '=')).head?.map fun _ => String.ofList (body.drop (name.length + 1)))

/-- Reads the arguments behind the name of a command. -/
def scan (known : Options) (g : Given) : List String → Except Detour Given
  | [] => .ok g
  | a :: r =>
    if a = "--" then r.foldlM Given.addFile g
    else if a.startsWith "--" then
      match splitLong a with
      | (name, value?) =>
        match known.lookup name, value?, r with
        | none, none, _ =>
          .error (if name = "help" then .help else .usage (.unknownArgument a))
        | none, some _, _ => .error (.usage (.unknownArgument a))
        | some .flag, some _, _ => .error (.usage (.valueUnexpected name))
        | some .flag, none, r => do scan known (← g.addOption name .flag "") r
        | some kind, some value, r => do scan known (← g.addOption name kind value) r
        | some _, none, [] => .error (.usage (.valueMissing name))
        | some kind, none, value :: r =>
          if isDashed value then .error (.usage (.valueMissing name))
          else do scan known (← g.addOption name kind value) r
    else if isDashed a then
      .error (if a.startsWith "-h" then .help else .usage (.unknownArgument a))
    else do scan known (← g.addFile a) r

/-! ### Commands -/

def Given.requireFile (g : Given) : Except Detour Path :=
  match g.file with
  | some f => .ok ⟨f⟩
  | none => .error (.usage .fileMissing)

def runOf (g : Given) : Except Detour Command := do
  return .run {
    file := ← g.requireFile
    library := g.path? "proxy"
    config := g.path? "config"
    overrides := {
      timeoutSeconds := (g.options.lookup "timeout").bind number?
      resourcesRoot := g.path? "resources"
      debugDir := g.path? "debug-dir"
      logFile := g.options.lookup "log-file"
      abortOnFault := (g.options.lookup "abort-on-fault").isSome }
    report := g.path? "report"
    jsonReport := g.path? "json-report" }

def names : List String := ["run", "parse", "compile", "help"]

/-- The command that arguments stand for. -/
def ofArguments : List String → Except Detour Command
  | [] => .error (.usage .noCommand)
  | "run" :: r => do runOf (← scan runOptions {} r)
  | "parse" :: r => do return .parse (← (← scan [] {} r).requireFile)
  | "compile" :: r => do
    let g ← scan compileOptions {} r
    return .compile (← g.requireFile) (g.path? "config") (g.path? "resources")
  | "help" :: r =>
    match r with
    | [] => .error .help
    | [name] =>
      .error (if names.contains name then .help else .usage (.unknownCommand name))
    | name :: _ => .error (.usage (.unknownCommand name))
  | a :: _ =>
    .error (if a = "--help" || (a.startsWith "-h") then .help
      else if a = "--version" || a.startsWith "-V" then .version
      else if isDashed a then .usage (.unknownArgument a)
      else .usage (.unknownCommand a))

end Command

end StepRunner
