import StepRunner.Stub.Load
import StepRunner.Text.Split

/-!
# A library that answers by names

A stub library with which runs can be tried out: what comes of a test is told by words in its name
and in the name of its class.
-/

namespace StepRunner.Stub.ByName

structure State where
  /-- The last name an id was asked for. -/
  current : String := ""
  started : Bool := false
  now : Nat := 0
  raised : Bool := false
  deriving DecidableEq, Repr

/-- Whether a name holds a word. -/
def has (word name : String) : Bool := Text.contains word.toList name.toList

def resultOf (name : String) : Int :=
  if has "Negative" name then -5 else if has "Fail" name then 0 else 1

/-- Runs the current test, during which the interrupt flag may be raised. -/
def runTest (s : State) : Int × State :=
  (resultOf s.current, { s with raised := s.raised || has "Kill" s.current, started := false })

def answer : (e : ExportCall) → State → e.Answer × State
  | .init, s => (1, s)
  | .baseObject, s => (⟨4096⟩, s)
  | .testId name, s =>
    (if has "Unknown" name.text then -1 else name.length, { s with current := name.text })
  | .getClass cls _, s => (if has "Null" cls.text then .null else ⟨8192⟩, s)
  | .canExecute _ _, s => (if has "Refuse" s.current then 0 else 1, s)
  | .execute _ _ _, s => runTest s
  | .threadedExecute _ _ _, s => (⟨12288⟩, { s with started := true })
  | .threadedResult, s =>
    if s.started then
      let r := runTest s
      ((1, r.1), r.2)
    else ((0, 0), s)
  | .submitClass _ _ _, s => ((), s)
  | .shutdown, s => ((), s)

def library : Library State where
  sleep d s := { s with now := s.now + max d 1 }
  now := State.now
  raised := State.raised
  now_sleep _ s := Nat.add_le_add_left (Nat.le_max_left _ _) s.now
  raised_sleep _ _ h := h
  loader := plainLoader
  answer := answer
  now_answer e s := by
    cases e
    case threadedResult => simp only [answer]; split <;> exact Nat.le_refl _
    all_goals exact Nat.le_refl _
  raised_answer e s h := by
    cases e
    case execute => simp [answer, runTest, h]
    case threadedResult => simp only [answer]; split <;> simp [runTest, h]
    all_goals exact h
  now_nap _ _ := Nat.lt_succ_self _

end StepRunner.Stub.ByName
