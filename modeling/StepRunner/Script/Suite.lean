import StepRunner.FileTree.Edit
import StepRunner.Script.Scope
import StepRunner.Suite

/-!
# Script suites

A run whose steps are hidden in a script. A backend runs the script as a whole; the counts are read
from the scope it leaves behind, and the report is a copy of the script's log.
-/

namespace StepRunner.Script

/-- Runs a script and gives the scope it left, changing the backend's own state `β`. -/
def Backend (β : Type) : Type := Path → β → Except Fault Scope × β

structure Run (β : Type) where
  file : Path
  backend : β
  files : FileTree
  /-- Left by the last run that gave a result. -/
  scope : Option Scope

inductive ScriptError where
  | missing (file : Path)
  | noResult
  | noLog
  deriving DecidableEq, Repr

def ScriptError.fault : ScriptError → Fault
  | missing file => { kind := .io, message := s!"Script '{file.text}' does not exist" }
  | noResult =>
    { kind := .script
      message := "Script did not return a valid result"
      help := some "The script must leave 'passed' and 'failed' in its scope" }
  | noLog => { kind := .script, message := "No results available" }

namespace Run

variable {β : Type}

def hasRun (r : Run β) : Bool := r.scope.isSome

def counts (r : Run β) : Counts :=
  match r.scope with
  | none => ⟨0, 0, 0⟩
  | some s => ⟨s.count "passed", s.count "failed", s.count "skipped"⟩

/-- A scope is a result if it holds one of the two counts at least. -/
def isResult (s : Scope) : Bool := (s.get? "passed").isSome || (s.get? "failed").isSome

def runAll (backend : Backend β) (r : Run β) : Except Fault Unit × Run β :=
  if r.files.isFile r.file then
    match backend r.file r.backend with
    | (.error f, b) => (.error f, { r with backend := b })
    | (.ok s, b) =>
      if isResult s then (.ok (), { r with backend := b, scope := some s })
      else (.error ScriptError.noResult.fault, { r with backend := b })
  else (.error (ScriptError.missing r.file).fault, r)

/-- Copies the script's log. -/
def writeReport (p : Path) (r : Run β) : Except Fault Unit × Run β :=
  match r.scope.bind Scope.logFile with
  | none => (.error ScriptError.noLog.fault, r)
  | some log =>
    match r.files.copy log p with
    | .ok files => (.ok (), { r with files })
    | .error e => (.error (.ofFileError "copy" log e), r)

def suite (backend : Backend β) : Suite Id (Run β) where
  counts := counts
  run r := match runAll backend r with
    | (outcome, r) => (outcome.mapError .fault, r)
  writeReport := writeReport

end Run

end StepRunner.Script
