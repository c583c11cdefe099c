import StepRunner.Report.Text

/-!
# The JSON report

The data of the text report as a document. A configuration file whose name is no text has no place
in it and makes the whole report fail.
-/

namespace StepRunner.Report

inductive Document where
  | null
  | bool (b : Bool)
  | number (n : Nat)
  | text (s : String)
  | array (items : List Document)
  | object (fields : List (String × Document))

namespace Document

def hexDigit (n : Nat) : Char := Char.ofNat (if n < 10 then 48 + n else 87 + n)

/-- A character inside quotes. -/
def escape (c : Char) : List Char :=
  match c with
  | '"' => ['\\', '"']
  | '\\' => ['\\', '\\']
  | '\n' => ['\\', 'n']
  | '\r' => ['\\', 'r']
  | '\t' => ['\\', 't']
  | '\x08' => ['\\', 'b']
  | '\x0c' => ['\\', 'f']
  | c =>
    if c.toNat < 32 then ['\\', 'u', '0', '0', hexDigit (c.toNat / 16), hexDigit (c.toNat % 16)]
    else [c]

def quote (s : String) : String := String.ofList ('"' :: s.toList.flatMap escape ++ ['"'])

/-- Items between brackets, each on a line of its own, two blanks further in. -/
def bracket (opening closing : String) (depth : Nat) (items : List String) : String :=
  if items.isEmpty then opening ++ closing
  else
    let margin (n : Nat) : String := "\n" ++ "".pushn ' ' (2 * n)
    opening ++ ",".intercalate (items.map (margin (depth + 1) ++ ·)) ++ margin depth ++ closing

/-- The document as text, `depth` brackets around it being open. -/
def render (depth : Nat) : Document → String
  | null => "null"
  | bool b => if b then "true" else "false"
  | number n => toString n
  | text s => quote s
  | array items => bracket "[" "]" depth (renderItems (depth + 1) items)
  | object fields => bracket "\x7b" "\x7d" depth (renderFields (depth + 1) fields)
where
  renderItems (depth : Nat) : List Document → List String
    | [] => []
    | d :: ds => render depth d :: renderItems depth ds
  renderFields (depth : Nat) : List (String × Document) → List String
    | [] => []
    | (k, d) :: fs => (quote k ++ ": " ++ render depth d) :: renderFields depth fs

end Document

/-- The name of a configuration file, if it is text. -/
def configDocument : Option ConfigFile → Option Document
  | none => some .null
  | some (.path p) => some (.text p.text)
  | some (.octets _) => none

def stepDocument (s : Step) : Option Document :=
  (configDocument s.configFile).map fun config => .object [
    ("name", .text s.name),
    ("class_name", .text s.className),
    ("interface_name", .text s.interfaceName),
    ("function_name", .text s.functionName),
    ("config_file", config),
    ("repeat", .number s.repeats.toNat),
    ("passed", .bool s.passed),
    ("elapsed", .number (min s.elapsed.millis (UInt64.size - 1))),
    ("attempts", .number s.attempts.toNat)]

def document (s : Summary) (steps : List Step) : Option Document :=
  (steps.mapM stepDocument).map fun items => .object [
    ("time", .text (Calendar.rfc3339 s.startedAt)),
    ("passes", .number s.passed),
    ("failures", .number s.failed),
    ("untested", .number s.skipped),
    ("steps", .array items)]

def notSerializable : Fault where
  kind := .io
  message := "Could not serialize report: path contains invalid UTF-8 characters"
  caused := true

/-- Replaces the file at `p` by the JSON report. -/
def writeJson (files : FileTree) (p : Path) (s : Summary) (steps : List Step) :
    Except Fault FileTree :=
  match document s steps with
  | none => .error notSerializable
  | some d => (files.writeText p (d.render 0)).mapError (.ofFileError "write" p)

end StepRunner.Report
