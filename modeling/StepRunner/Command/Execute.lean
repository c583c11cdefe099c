import StepRunner.Command.Arguments
import StepRunner.Command.Output
import StepRunner.Config.Yaml
import StepRunner.FileTree.Edit
import StepRunner.Session

/-!
# What commands do

A command ends with an exit status, a text for standard output, perhaps a fault for the operator,
and the files as it leaves them. A run that is interrupted still has its report, and the fault of
the run decides how the command ends, unless the JSON report could not be written.
-/

namespace StepRunner

structure Finish where
  status : Nat
  stdout : String := ""
  fault : Option Fault := none
  files : FileTree

namespace Finish

/-- The program broke down. -/
def brokenDown (files : FileTree) : Finish := { status := 101, files }

def failed (files : FileTree) (f : Fault) : Finish :=
  { status := f.exitStatus, fault := some f, files }

def done (files : FileTree) (stdout : String) : Finish := { status := 0, stdout, files }

def ofResult (files : FileTree) : Except Fault String → Finish
  | .ok stdout => done files stdout
  | .error f => failed files f

end Finish

def Overrides.apply (o : Overrides) (c : Config) : Config :=
  { c with
    resourcesRoot := o.resourcesRoot.getD c.resourcesRoot
    debugDir := o.debugDir.getD c.debugDir
    logFile := o.logFile <|> c.logFile
    timeoutSeconds := o.timeoutSeconds.getD c.timeoutSeconds
    faultPolicy := if o.abortOnFault then .abort else c.faultPolicy }

namespace Config

/-- The configuration of a command: that of the file, if one is named, with the overrides. -/
def load (files : FileTree) (file : Option Path) (o : Overrides) : Except Fault Config := do
  let c ← match file with
    | some p => (ofFile files p).mapError (·.fault)
    | none => pure {}
  let c := o.apply c
  c.validate.mapError (·.fault)
  return c

def makeDebugDir (files : FileTree) (c : Config) : FileTree × Except Fault Unit :=
  let (files, made) := files.makeDirectories c.debugDir
  (files, made.mapError (Fault.ofFileError "create" c.debugDir))

/-- Opens the log file in its directory. -/
def openLog (files : FileTree) (c : Config) (log : Path) : FileTree × Except Fault Unit :=
  match c.makeDebugDir files with
  | (files, .ok ()) =>
    match files.touch log with
    | .ok files => (files, .ok ())
    | .error e => (files, .error (.ofFileError "open" log e))
  | failed => failed

/-- Makes what a run needs around it: the log file, if there is to be one, and the debug
directory. -/
def prepare (files : FileTree) (c : Config) : FileTree × Except Fault Unit :=
  match c.logPath with
  | none => c.makeDebugDir files
  | some log =>
    match c.openLog files log with
    | (files, .ok ()) => c.makeDebugDir files
    | failed => failed

end Config

namespace Command

variable {ω : Type}

def noBackend (file : Path) : Fault :=
  { kind := .script
    message := s!"No scripting backend is available for '{file.text}'"
    help := some "Script run-files need an embedder that provides a ScriptBackend" }

def noLibrary : Fault :=
  { kind := .config
    message := "Stub module is not set"
    help := some "Pass the module with --proxy <PATH>" }

/-- Exit status of a run that came to its end. -/
def statusOf (c : Counts) : Nat := if 0 < c.failed then 1 else 0

def listInstructions (files : FileTree) (file : Path) : Except Fault String :=
  match RunFile.parseFile files file with
  | .ok is => .ok (Output.instructions is)
  | .error e => .error e.fault

def listSteps (files : FileTree) (file : Path) (config resourcesRoot : Option Path) :
    Except Fault String := do
  let c ← Config.load files config { resourcesRoot }
  return Output.steps (← Session.compile files c file)

/-- The end of a run that has its counts. -/
def concludeRun (colored : Bool) (files : FileTree) (counts : Counts)
    (outcome : Except Failure Counts) (json : Except Fault Unit) : Finish :=
  match outcome, json with
  | .error .clockOverflow, _ => .brokenDown files
  | _, .error f => .failed files f
  | .error (.fault f), .ok () =>
    { status := f.exitStatus, stdout := Output.summary colored counts, fault := some f, files }
  | .ok c, .ok () => { status := statusOf c, stdout := Output.summary colored counts, files }

/-- Runs an open session, writes its reports and closes it. -/
def runSession (L : Stub.Library ω) (colored : Bool) (report : Path) (jsonReport : Option Path)
    (s : Session) (files : FileTree) : Activity ω Finish := do
  let W := L.world none
  let (outcome, s, files) ← (Session.suite W).runAndReport report (s, files)
  let (json, files) := match jsonReport, outcome with
    | none, _ | _, .error .clockOverflow => (.ok (), files)
    | some p, _ =>
      match s.writeJson files p with
      | .ok files => (.ok (), files)
      | .error f => (.error f, files)
  let s ← s.close W
  return concludeRun colored files s.counts outcome json

/-- Runs with a configuration. -/
def runWith (L : Stub.Library ω) (started : Timestamp) (colored : Bool) (o : RunOptions)
    (c : Config) (files : FileTree) : Activity ω Finish := do
  match c.prepare files with
  | (files, .error f) => return .failed files f
  | (files, .ok ()) =>
    if isScript o.file then return .failed files (noBackend o.file)
    else match o.library with
      | none => return .failed files noLibrary
      | some library =>
        match ← Session.openLibrary L files c started o.file library with
        | .error f => return .failed files f
        | .ok s => runSession L colored (o.report.getD (c.reportPath o.file)) o.jsonReport s files

/-- Carries out a command that starts at a given moment, libraries behaving as `L` does. -/
def execute (L : Stub.Library ω) (started : Timestamp) (colored : Bool) (files : FileTree) :
    Command → Activity ω Finish
  | run o =>
    match Config.load files o.config o.overrides with
    | .error f => return .failed files f
    | .ok c => runWith L started colored o c files
  | .parse file => return .ofResult files (listInstructions files file)
  | .compile file config resourcesRoot =>
    return .ofResult files (listSteps files file config resourcesRoot)

/-! ### The program -/

def versionText : String := "torso 0.1.0\n"

def helpText : String :=
  "Runs run-files step by step against a native test stub module.\n\n" ++
  "Usage: torso <COMMAND>\n\n" ++
  "Commands:\n" ++
  "  run      Parse, compile and run a run-file, then write its report\n" ++
  "  parse    Print the flattened instruction sequence of a run-file\n" ++
  "  compile  Print the compiled steps of a run-file\n" ++
  "  help     Print this message\n"

def Detour.finish (files : FileTree) : Detour → Finish
  | .help => .done files helpText
  | .version => .done files versionText
  | .usage _ => { status := 2, files }

/-- What the program does with its arguments. -/
def respond (L : Stub.Library ω) (started : Timestamp) (colored : Bool) (files : FileTree)
    (args : List String) : Activity ω Finish :=
  match ofArguments args with
  | .ok c => c.execute L started colored files
  | .error d => return Detour.finish files d

end Command

end StepRunner
