import StepRunner.Step.Basic

/-!
# Run summaries

How many steps of a run passed and failed. What is left of the total was not reached.
-/

namespace StepRunner

/-- A moment: seconds since the beginning of 1970 in universal time, and nanoseconds behind them. It
is told in local time. -/
structure Timestamp where
  seconds : Int
  nanos : Nat
  /-- The seconds by which local time is ahead of universal time. -/
  offset : Int
  deriving DecidableEq, Repr

structure Summary where
  startedAt : Timestamp
  total : Nat
  passed : Nat
  failed : Nat
  deriving DecidableEq, Repr

namespace Summary

def start (startedAt : Timestamp) (total : Nat) : Summary := ⟨startedAt, total, 0, 0⟩

/-- Steps that were not reached. -/
def skipped (s : Summary) : Nat := s.total - (s.passed + s.failed)

def record (s : Summary) (passed : Bool) : Summary :=
  if passed then { s with passed := s.passed + 1 } else { s with failed := s.failed + 1 }

section

variable (summary : Summary) (passed : Bool)

theorem record_total : (summary.record passed).total = summary.total := by
  cases passed <;> rfl

theorem record_passed :
    (summary.record passed).passed = summary.passed + if passed then 1 else 0 := by
  cases passed <;> rfl

theorem record_reached :
    (summary.record passed).passed + (summary.record passed).failed =
      summary.passed + summary.failed + 1 := by
  cases passed with
  | true => exact Nat.add_right_comm _ _ _
  | false => rfl

end

end Summary

/-- What a suite has to tell about its runs. -/
structure Counts where
  passed : Nat
  failed : Nat
  skipped : Nat
  deriving DecidableEq, Repr

def Summary.counts (s : Summary) : Counts := ⟨s.passed, s.failed, s.skipped⟩

end StepRunner
