import StepRunner.Summary
import StepRunner.Fault

/-!
# Suites

What every kind of run has in common: it can be run, it has counts and it can write a report. The
report is written however the run went, and of two failures that of the run is told.
-/

namespace StepRunner

/-- Why a run, or what belongs to it, came to nothing. -/
inductive Failure where
  | fault (f : Fault)
  /-- The program broke down over a moment that cannot be told. -/
  | clockOverflow
  deriving DecidableEq, Repr

/-- A kind of run with states `σ`, whose runs are activities of the monad `m`. -/
structure Suite (m : Type → Type) (σ : Type) where
  counts : σ → Counts
  run : σ → m (Except Failure Unit × σ)
  writeReport : Path → σ → Except Fault Unit × σ

namespace Suite

variable {m : Type → Type} {σ : Type}

/-- The counts, if the run and its report both succeeded. -/
def conclude (run : Except Failure Unit) (written : Except Fault Unit) (counts : Counts) :
    Except Failure Counts :=
  match run, written with
  | .error e, _ => .error e
  | .ok (), .error f => .error (.fault f)
  | .ok (), .ok () => .ok counts

/-- Runs the suite and writes its report. -/
def runAndReport [Monad m] (S : Suite m σ) (report : Path) (s : σ) :
    m (Except Failure Counts × σ) := do
  let (run, s) ← S.run s
  match run with
  | .error .clockOverflow => return (.error .clockOverflow, s)
  | run =>
    let (written, s') := S.writeReport report s
    return (conclude run written (S.counts s), s')

end Suite

end StepRunner
