import StepRunner.Fault
import StepRunner.RunFile.Instruction

/-!
# Parse errors

Why a run-file is refused. `ParseError.fault` gives the wording.
-/

namespace StepRunner.RunFile

/-- A line that is to blame, and the text it stands in. -/
structure Location where
  source : Source
  line : SourceLine
  deriving DecidableEq, Repr

/-- The most fields a step line has. -/
def maxFields : Nat := 3

/-- The most steps a repeated block gives. -/
def maxExpansion : Nat := 1000000

inductive ParseError where
  | missing (file : Path)
  | unreadable (file : Path) (cause : FileError)
  /-- `chain` leads from the first file to the one that is read again. -/
  | cycle (file : Path) (chain : List Path)
  | unbalanced (source : Source) (opens closes : Nat)
  | unexpectedClose (blame : Location)
  /-- `beside` is the target next to the including file. -/
  | unresolved (blame : Location) (target : String) (beside : Path)
  | tooManyFields (blame : Location)
  | badCount (blame : Location) (count : String)
  | tooLong (blame : Location) (count : Nat)
  | neverClosed (blame : Location)
  deriving DecidableEq, Repr

/-- A fault that points at a line. -/
def Location.fault (l : Location) (message : String) (help : Option String) : Fault where
  kind := .parse
  message := message
  source := some l.source
  span := some l.line.span
  help := help

def ParseError.fault : ParseError → Fault
  | missing file => { kind := .io, message := s!"Run file '{file.text}' does not exist" }
  | unreadable file cause => .ofFileError "read" file cause
  | cycle file chain =>
    { kind := .parse
      message := s!"Include cycle: '{file.text}' includes itself"
      help := some ("Include chain: " ++ " -> ".intercalate (chain.map Path.text)) }
  | unbalanced source opens closes =>
    { kind := .parse
      message := s!"Mismatched number of braces: {opens} '(' against {closes} ')'"
      source := some source
      help := some "Every '(' line needs a matching ')' line" }
  | unexpectedClose l => l.fault "Unexpected ')' without a matching '('" none
  | unresolved l target beside =>
    l.fault s!"Cannot resolve include '{target}'"
      (some s!"Looked for '{target}' and '{beside.text}'")
  | tooManyFields l =>
    l.fault s!"Invalid number of fields: {l.line.text}"
      (some "A step line is 'name,configFile[,repeat]'")
  | badCount l count =>
    l.fault s!"Invalid block repeat count '{count}'"
      (some "The repeat suffix is ')*N' with N a positive integer")
  | tooLong l count =>
    l.fault s!"Block repeated {count} times expands past {maxExpansion} steps"
      (some "Lower the repeat count or split the block")
  | neverClosed l => l.fault "Block is never closed" none

end StepRunner.RunFile
