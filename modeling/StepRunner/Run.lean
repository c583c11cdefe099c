import StepRunner.Step.Execute
import StepRunner.Summary

/-!
# Runs

The steps of a run are executed one after another, each verdict is counted, and the run ends early
when it is interrupted or, under the policy `abort`, behind the first step with a fault.
-/

namespace StepRunner

open Stub (Handle)
open Activity (isInterrupted)

/-- Why a run ended early. -/
inductive RunError where
  | halted (h : Halt)
  | stepFault (f : StepFault)
  deriving DecidableEq, Repr

/-- A run with its steps and counts as it left them. -/
structure RunResult where
  outcome : Except RunError Unit
  steps : List Step
  summary : Summary

/-- The result of a run whose other steps were run behind `step`. -/
def RunResult.behind (step : Step) (r : RunResult) : RunResult :=
  { r with steps := step :: r.steps }

namespace Run

variable {ω : Type}

/-- Runs steps, adding to the counts of `summary`. -/
def into (W : World ω) (config : Config) (context : Handle) :
    List Step → Summary → Activity ω RunResult
  | [], summary => return ⟨.ok (), [], summary⟩
  | step :: rest, summary => do
    if ← isInterrupted W then return ⟨.error (.halted .interrupted), step :: rest, summary⟩
    else
      let (outcome, done) ← step.execute W config context
      match outcome with
      | .error h => return ⟨.error (.halted h), done :: rest, summary⟩
      | .ok verdict =>
        match verdict.fault, config.faultPolicy with
        | some f, .abort =>
          return ⟨.error (.stepFault f), done :: rest, summary.record verdict.passed⟩
        | _, _ =>
          RunResult.behind done <$> into W config context rest (summary.record verdict.passed)

/-- Runs steps with fresh counts. -/
def all (W : World ω) (config : Config) (context : Handle) (started : Timestamp)
    (steps : List Step) : Activity ω RunResult :=
  into W config context steps (.start started steps.length)

end Run

end StepRunner
