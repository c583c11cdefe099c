/-!
# Durations

Lengths of time in nanoseconds, which is also how a clock reads: the time since it started.
-/

namespace StepRunner

structure Duration where
  nanos : Nat
  deriving DecidableEq, Repr

namespace Duration

def zero : Duration := ⟨0⟩

def ofSeconds (n : Nat) : Duration := ⟨n * 1000000000⟩

def ofMillis (n : Nat) : Duration := ⟨n * 1000000⟩

/-- Whole seconds. -/
def seconds (d : Duration) : Nat := d.nanos / 1000000000

/-- Nanoseconds beyond the whole seconds. -/
def subsecond (d : Duration) : Nat := d.nanos % 1000000000

/-- Whole milliseconds. -/
def millis (d : Duration) : Nat := d.nanos / 1000000

@[simp] theorem seconds_ofSeconds (n : Nat) : (ofSeconds n).seconds = n := by
  simp [ofSeconds, seconds]

@[simp] theorem millis_ofMillis (n : Nat) : (ofMillis n).millis = n := by
  simp [ofMillis, millis]

end Duration

end StepRunner
