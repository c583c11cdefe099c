import StepRunner.Stub.Call

/-!
# Activities

What a run does to its surroundings: it calls the stub module, sleeps, reads the clock and looks
at the interrupt flag. `World ω` says how surroundings in state `ω` react; nothing is known of a
stub module beyond that. An activity gives its value together with the events on the way, in
order, and the state it leaves behind.
-/

namespace StepRunner

open Stub (Call)

/-- A clock and an interrupt flag. Times are in nanoseconds. -/
structure Surroundings (ω : Type) where
  sleep : Nat → ω → ω
  now : ω → Nat
  /-- Whether an operator has asked for the run to end. -/
  raised : ω → Bool
  /-- A sleep takes its time at least. -/
  now_sleep : ∀ d w, now w + d ≤ now (sleep d w)
  raised_sleep : ∀ d w, raised w = true → raised (sleep d w) = true

/-- Surroundings with a stub module that may answer in any way. -/
structure World (ω : Type) extends Surroundings ω where
  answer : (c : Call) → ω → c.Answer × ω
  now_answer : ∀ c w, now w ≤ now (answer c w).2
  raised_answer : ∀ c w, raised w = true → raised (answer c w).2 = true
  /-- An empty sleep takes some time if it follows a poll without a result: polling at an interval
  of nothing comes to its deadline. No other sleep has to take more than its time. -/
  now_nap : ∀ w, (answer .poll w).1 = none → now (answer .poll w).2 < now (sleep 0 (answer .poll w).2)

/-- Behind a poll without a result no nap is lost on the clock. -/
theorem World.now_lt_nap {ω : Type} (W : World ω) {w w₁ : ω} (h : W.answer .poll w = (none, w₁))
    (nap : Nat) : W.now w₁ < W.now (W.sleep nap w₁) := by
  cases nap with
  | zero =>
    have hnap := W.now_nap w (congrArg Prod.fst h)
    rwa [h] at hnap
  | succ nap => exact Nat.lt_of_lt_of_le (Nat.lt_add_of_pos_right nap.succ_pos) (W.now_sleep _ w₁)

/-- The same surroundings, seen by a run to which the flag does not belong. -/
def World.deaf {ω : Type} (W : World ω) : World ω where
  sleep := W.sleep
  now := W.now
  raised := fun _ => false
  now_sleep := W.now_sleep
  raised_sleep := fun _ _ h => h
  answer := W.answer
  now_answer := W.now_answer
  raised_answer := fun _ _ h => h
  now_nap := W.now_nap

inductive Event where
  | called (c : Call) (a : c.Answer)
  | slept (nanos : Nat)
  deriving DecidableEq

def Event.call? : Event → Option Call
  | called c _ => some c
  | slept _ => none

/-- The calls among events, in order. -/
def callsOf (events : List Event) : List Call := events.filterMap Event.call?

@[simp] theorem callsOf_nil : callsOf [] = [] := rfl

@[simp] theorem callsOf_append (as bs : List Event) :
    callsOf (as ++ bs) = callsOf as ++ callsOf bs := by
  simp [callsOf]

/-- How an activity went. -/
structure Ran (ω α : Type) where
  value : α
  events : List Event
  state : ω

def Activity (ω α : Type) : Type := ω → Ran ω α

namespace Activity

variable {ω α β : Type}

instance : Monad (Activity ω) where
  pure a w := ⟨a, [], w⟩
  bind x f w :=
    let ⟨a, before, w⟩ := x w
    let ⟨b, behind, w⟩ := f a w
    ⟨b, before ++ behind, w⟩
  map f x w :=
    let ⟨a, events, w⟩ := x w
    ⟨f a, events, w⟩

@[simp] theorem pure_apply (a : α) (w : ω) : (pure a : Activity ω α) w = ⟨a, [], w⟩ := rfl

@[simp] theorem bind_apply (x : Activity ω α) (f : α → Activity ω β) (w : ω) :
    (x >>= f) w =
      ⟨(f (x w).value (x w).state).value, (x w).events ++ (f (x w).value (x w).state).events,
        (f (x w).value (x w).state).state⟩ := rfl

@[simp] theorem map_apply (f : α → β) (x : Activity ω α) (w : ω) :
    (f <$> x) w = ⟨f (x w).value, (x w).events, (x w).state⟩ := rfl

instance : LawfulMonad (Activity ω) where
  map_const := rfl
  id_map _ := rfl
  seqLeft_eq _ _ := funext fun _ => by simp [SeqLeft.seqLeft, Seq.seq]
  seqRight_eq _ _ := funext fun _ => by simp [SeqRight.seqRight, Seq.seq]
  pure_seq _ _ := rfl
  bind_pure_comp _ _ := funext fun _ => by simp
  bind_map _ _ := rfl
  pure_bind _ _ := rfl
  bind_assoc _ _ _ := funext fun _ => by simp

def call (W : World ω) (c : Call) : Activity ω c.Answer := fun w =>
  let (a, w) := W.answer c w
  ⟨a, [.called c a], w⟩

def pause (W : World ω) (nanos : Nat) : Activity ω Unit := fun w =>
  ⟨(), [.slept nanos], W.sleep nanos w⟩

def clock (W : World ω) : Activity ω Nat := fun w => ⟨W.now w, [], w⟩

def isInterrupted (W : World ω) : Activity ω Bool := fun w => ⟨W.raised w, [], w⟩

end Activity

end StepRunner
