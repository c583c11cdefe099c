import StepRunner.Path
import StepRunner.Duration

/-!
# Steps

One test to run, and what came of running it. Only `record` changes a step after it is compiled.
-/

namespace StepRunner

structure Step where
  /-- `id__Class__Interface__Function`. -/
  name : String
  className : String
  interfaceName : String
  functionName : String
  configFile : Option ConfigFile
  /-- Repetitions beyond the first run. -/
  repeats : UInt32
  passed : Bool
  elapsed : Duration
  /-- Repetitions begun, counted in 32 bits. -/
  attempts : UInt32
  deriving DecidableEq, Repr

namespace Step

/-- The configuration file as the stub module receives it; empty for none. -/
def configArg (s : Step) : String := (s.configFile.map ConfigFile.display).getD ""

def record (s : Step) (passed : Bool) (elapsed : Duration) (attempts : UInt32) : Step :=
  { s with passed, elapsed, attempts }

@[simp] theorem record_name (s : Step) (p : Bool) (e : Duration) (a : UInt32) :
    (s.record p e a).name = s.name := rfl

@[simp] theorem configArg_record (s : Step) (p : Bool) (e : Duration) (a : UInt32) :
    (s.record p e a).configArg = s.configArg := rfl

end Step

end StepRunner
