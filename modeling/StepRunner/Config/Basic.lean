import StepRunner.Duration
import StepRunner.Fault
import StepRunner.Text.Split

/-!
# Run configurations

Where files lie, how long to wait and when to stop. A field that is left out has its default.
-/

namespace StepRunner

/-- What a step fault means for the steps behind it. -/
inductive FaultPolicy where
  | tolerate
  | abort
  deriving DecidableEq, Repr

structure Config where
  /-- Holds a directory of configuration files for each step name. As any path it is text. -/
  resourcesRoot : Path := ⟨"mufat_resources/sdkruntime"⟩
  /-- Holds reports and the log file. -/
  debugDir : Path := ⟨"muveeDebug"⟩
  /-- A name inside `debugDir`. -/
  logFile : Option String := none
  timeoutSeconds : Nat := 7200
  pollIntervalMillis : Nat := 1000
  repeatPauseMillis : Nat := 1000
  /-- A step whose name holds one of these is polled for its result. -/
  longRunningMarkers : List String := ["SaveTillDone", "PreviewTillDone", "AnalyseTillDone"]
  faultPolicy : FaultPolicy := .tolerate
  deriving DecidableEq, Repr

inductive ConfigError where
  | zeroTimeout
  | zeroPollInterval
  deriving DecidableEq, Repr

def ConfigError.fault : ConfigError → Fault
  | zeroTimeout => { kind := .config, message := "Timeout must be at least 1 second" }
  | zeroPollInterval =>
    { kind := .config, message := "Poll interval must be at least 1 millisecond" }

namespace Config

def validate (c : Config) : Except ConfigError Unit :=
  if c.timeoutSeconds = 0 then .error .zeroTimeout
  else if c.pollIntervalMillis = 0 then .error .zeroPollInterval
  else .ok ()

def timeout (c : Config) : Duration := .ofSeconds c.timeoutSeconds

def pollInterval (c : Config) : Duration := .ofMillis c.pollIntervalMillis

def repeatPause (c : Config) : Duration := .ofMillis c.repeatPauseMillis

/-- Whether the step of this name is started and polled instead of executed. -/
def isLongRunning (c : Config) (name : String) : Bool :=
  c.longRunningMarkers.any fun marker => Text.contains marker.toList name.toList

def logPath (c : Config) : Option Path := c.logFile.map c.debugDir.join

/-- Where the report of a run-file goes unless told otherwise. -/
def reportPath (c : Config) (runFile : Path) : Path :=
  c.debugDir.join (runFile.fileStem.getD "torso" ++ ".txt")

/-- The same settings, paths being compared by their components. -/
def alike (c d : Config) : Bool :=
  c.resourcesRoot.alike d.resourcesRoot && c.debugDir.alike d.debugDir &&
    { c with resourcesRoot := d.resourcesRoot, debugDir := d.debugDir } = d

theorem validate_ok_iff (c : Config) :
    c.validate = .ok () ↔ 1 ≤ c.timeoutSeconds ∧ 1 ≤ c.pollIntervalMillis := by
  unfold validate
  split
  · simp only [reduceCtorEq, false_iff]; omega
  · split
    · simp only [reduceCtorEq, false_iff]; omega
    · simp only [true_iff]; omega

end Config

end StepRunner
