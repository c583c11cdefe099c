import StepRunner.Binding
import StepRunner.Report.Json
import StepRunner.Run
import StepRunner.RunFile.Parse
import StepRunner.Step.Compile
import StepRunner.Stub.Load
import StepRunner.Suite

/-!
# Sessions

A run-file compiled against an attached stub module. The module is shut down when the session is
closed, and also when the session cannot be set up.
-/

namespace StepRunner

/-- Whether a run-file is a script, which another backend has to run. -/
def isScript (runFile : Path) : Bool :=
  match runFile.extension with
  | some e => e.toLower = "py"
  | none => false

def RunError.failure : RunError → Failure
  | .halted .interrupted => .fault interruption
  | .halted .clockOverflow => .clockOverflow
  | .stepFault f => .fault f.fault

namespace Binding

variable {ω : Type}

/-- Loads a library and attaches it. -/
def openLibrary (L : Stub.Library ω) (files : FileTree) (library : Path) :
    Activity ω (Except Fault Binding) :=
  match L.load files library with
  | .error e => return .error e.fault
  | .ok lacks => do return (← attach (L.world lacks)).mapError AttachError.fault

end Binding

structure Session where
  config : Config
  runFile : Path
  steps : List Step
  summary : Summary
  binding : Binding

namespace Session

variable {ω : Type}

/-- The steps of a run-file. -/
def compile (files : FileTree) (config : Config) (runFile : Path) : Except Fault (List Step) := do
  let instructions ← (RunFile.parseFile files runFile).mapError RunFile.ParseError.fault
  (Step.compileAll files config.resourcesRoot instructions).mapError CompileError.fault

/-- A session over a module that is attached already. -/
def withBinding (W : World ω) (files : FileTree) (config : Config) (started : Timestamp)
    (runFile : Path) (binding : Binding) : Activity ω (Except Fault Session) :=
  let steps := do
    config.validate.mapError ConfigError.fault
    compile files config runFile
  match steps with
  | .error f => do
    let _ ← binding.close W
    return .error f
  | .ok steps =>
    return .ok ⟨config, runFile, steps, .start started steps.length, binding⟩

/-- A session over the library at a path. -/
def openLibrary (L : Stub.Library ω) (files : FileTree) (config : Config) (started : Timestamp)
    (runFile library : Path) : Activity ω (Except Fault Session) :=
  if files.isFile runFile then do
    match ← Binding.openLibrary L files library with
    | .error f => return .error f
    | .ok binding => withBinding (L.world none) files config started runFile binding
  else return .error (RunFile.ParseError.missing runFile).fault

def counts (s : Session) : Counts := s.summary.counts

/-- Runs all steps, adding to the counts. -/
def run (W : World ω) (s : Session) : Activity ω (Except Failure Unit × Session) :=
  match s.binding.table with
  | .error f => return (.error (.fault f), s)
  | .ok context => do
    let r ← Run.into W s.config context s.steps s.summary
    return (r.outcome.mapError RunError.failure, { s with steps := r.steps, summary := r.summary })

def writeReport (files : FileTree) (p : Path) (s : Session) : Except Fault FileTree :=
  Report.write files p s.summary s.steps

def writeJson (files : FileTree) (p : Path) (s : Session) : Except Fault FileTree :=
  Report.writeJson files p s.summary s.steps

def close (W : World ω) (s : Session) : Activity ω Session := do
  return { s with binding := ← s.binding.close W }

/-- Sessions as suites; their reports go into a file tree. -/
def suite (W : World ω) : Suite (Activity ω) (Session × FileTree) where
  counts s := s.1.counts
  run s := do
    let (outcome, session) ← s.1.run W
    return (outcome, (session, s.2))
  writeReport p s :=
    match writeReport s.2 p s.1 with
    | .ok files => (.ok (), (s.1, files))
    | .error f => (.error f, s)

end Session

end StepRunner
