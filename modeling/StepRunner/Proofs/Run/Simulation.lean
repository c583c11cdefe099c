import StepRunner.Proofs.Session.History

/-!
# Surroundings that behave alike

Two worlds whose states are related behave alike if they tell the same, give the same answers and
stay related (`World.Alike`). Whatever is run in one of them has the same outcome and the same
events in the other: each part of a run keeps its states related (`Activity.Matches`), and so does
the whole run (`Run.into_matches`).
-/

namespace StepRunner

open Stub (Call Handle)

variable {ω₁ ω₂ : Type} {R : ω₁ → ω₂ → Prop} {V : World ω₁} {W : World ω₂}

/-! ### Activities -/

/-- The same value, the same events and related states. -/
structure Ran.Matches {α : Type} (R : ω₁ → ω₂ → Prop) (x : Ran ω₁ α) (y : Ran ω₂ α) : Prop where
  value : x.value = y.value
  events : x.events = y.events
  state : R x.state y.state

/-- From related states on the activities go the same way. -/
def Activity.Matches {α : Type} (R : ω₁ → ω₂ → Prop) (x : Activity ω₁ α) (y : Activity ω₂ α) :
    Prop :=
  ∀ v w, R v w → (x v).Matches R (y w)

/-- Worlds that tell the same and give the same answers in related states. How a module is bound is
left open. -/
structure World.Alike (R : ω₁ → ω₂ → Prop) (V : World ω₁) (W : World ω₂) : Prop where
  now : ∀ v w, R v w → V.now v = W.now w
  raised : ∀ v w, R v w → V.raised v = W.raised w
  sleep : ∀ d v w, R v w → R (V.sleep d v) (W.sleep d w)
  answer : ∀ c v w, c ≠ .bind → R v w →
    (V.answer c v).1 = (W.answer c w).1 ∧ R (V.answer c v).2 (W.answer c w).2

theorem World.Alike.deaf (h : World.Alike R V W) : World.Alike R V.deaf W.deaf where
  now := h.now
  raised _ _ _ := rfl
  sleep := h.sleep
  answer := h.answer

theorem World.Alike.heard (h : World.Alike R V W) (attached : Bool) :
    World.Alike R (V.heard attached) (W.heard attached) := by
  cases attached with
  | true => exact h
  | false => exact h.deaf

namespace Activity

section

variable {α β : Type}

theorem matches_pure (a : α) : Matches R (pure a) (pure a) := fun _ _ h => ⟨rfl, rfl, h⟩

theorem Matches.bind {x : Activity ω₁ α} {y : Activity ω₂ α} {f : α → Activity ω₁ β}
    {g : α → Activity ω₂ β} (h : Matches R x y) (hf : ∀ a, Matches R (f a) (g a)) :
    Matches R (x >>= f) (y >>= g) := by
  intro v w hvw
  obtain ⟨hvalue, hevents, hstate⟩ := h v w hvw
  have hrest := hf (x v).value _ _ hstate
  rw [bind_apply, bind_apply, ← hvalue, hevents]
  exact ⟨hrest.value, congrArg _ hrest.events, hrest.state⟩

theorem Matches.map {x : Activity ω₁ α} {y : Activity ω₂ α} (h : Matches R x y) (f : α → β) :
    Matches R (f <$> x) (f <$> y) := fun v w hvw =>
  ⟨congrArg f (h v w hvw).value, (h v w hvw).events, (h v w hvw).state⟩

theorem Matches.ite {c : Prop} [Decidable c] {x x' : Activity ω₁ α} {y y' : Activity ω₂ α}
    (h : Matches R x y) (h' : Matches R x' y') :
    Matches R (if c then x else x') (if c then y else y') := by
  split
  · exact h
  · exact h'

end

theorem call_matches (h : World.Alike R V W) (c : Call) (hc : c ≠ .bind) :
    Matches R (call V c) (call W c) := by
  intro v w hvw
  obtain ⟨hanswer, hstate⟩ := h.answer c v w hc hvw
  refine ⟨hanswer, ?_, hstate⟩
  show [Event.called c (V.answer c v).1] = [Event.called c (W.answer c w).1]
  rw [hanswer]

theorem pause_matches (h : World.Alike R V W) (nanos : Nat) :
    Matches R (pause V nanos) (pause W nanos) := fun v w hvw =>
  ⟨rfl, rfl, h.sleep nanos v w hvw⟩

theorem clock_matches (h : World.Alike R V W) : Matches R (clock V) (clock W) := fun v w hvw =>
  ⟨h.now v w hvw, rfl, hvw⟩

theorem isInterrupted_matches (h : World.Alike R V W) :
    Matches R (isInterrupted V) (isInterrupted W) := fun v w hvw =>
  ⟨h.raised v w hvw, rfl, hvw⟩

end Activity

open Activity (call Matches matches_pure call_matches pause_matches clock_matches
  isInterrupted_matches)

/-! ### Steps -/

namespace Step

theorem awaitResult_matches (h : World.Alike R V W) (interval deadline : Nat) :
    Matches R (awaitResult V interval deadline) (awaitResult W interval deadline) := by
  intro v w hvw
  induction hn : deadline - V.now v using Nat.strongRecOn generalizing v w with
  | _ n ih =>
    have hpoll := call_matches h .poll nofun v w hvw
    have hnow := h.now _ _ hpoll.state
    have hraised := h.raised _ _ hpoll.state
    rw [awaitResult_eq, awaitResult_eq]
    dsimp only
    rw [← hpoll.value, ← hnow, ← hraised]
    cases hvalue : (call V .poll v).value with
    | some code => exact ⟨rfl, hpoll.events, hpoll.state⟩
    | none =>
      dsimp only
      split
      · exact ⟨rfl, hpoll.events, hpoll.state⟩
      · split
        · exact ⟨rfl, hpoll.events, hpoll.state⟩
        · next hdeadline =>
          have hless := left_lt_of_nap V (Prod.ext hvalue rfl) (Nat.lt_of_not_le hdeadline)
            (min interval (deadline - V.now (call V .poll v).state))
          have hrest := ih _ (hn ▸ hless) _ _ (h.sleep _ _ _ hpoll.state) rfl
          rw [hpoll.events]
          exact ⟨hrest.value, congrArg _ (congrArg _ hrest.events), hrest.state⟩

theorem runPolled_matches (h : World.Alike R V W) (config : Config) (handler : Handle) (id : Int)
    (arg : String) :
    Matches R (runPolled V config handler id arg) (runPolled W config handler id arg) := by
  unfold runPolled
  refine (call_matches h (.start _ _ _) nofun).bind fun _ => ?_
  refine (clock_matches h).bind fun now => ?_
  cases deadline? now config.timeout with
  | none => exact matches_pure _
  | some deadline => exact awaitResult_matches h _ _

namespace Setting

theorem attempt_matches (h : World.Alike R V W) (s : Setting) :
    Matches R (s.attempt V) (s.attempt W) :=
  (runPolled_matches h _ _ _ _).ite
    ((call_matches h (.execute _ _ _) nofun).bind fun _ => matches_pure _)

/-- What is done behind a repetition depends on how it went. -/
theorem repetitions_matches (h : World.Alike R V W) (s : Setting) (left : Nat)
    (attempts : UInt32) :
    Matches R (s.repetitions V left attempts) (s.repetitions W left attempts) := by
  have hrelease := call_matches h (.release s.step.className s.handler s.context) nofun
  induction left generalizing attempts with
  | zero =>
    unfold repetitions
    refine (attempt_matches h s).bind fun a => ?_
    match a with
    | .result _ | .timedOut | .halted .interrupted => exact hrelease.bind fun _ => matches_pure _
    | .halted .clockOverflow => exact matches_pure _
  | succ left ih =>
    unfold repetitions
    refine (attempt_matches h s).bind fun a => ?_
    match a with
    | .result code =>
      refine hrelease.bind fun _ => (matches_pure _).ite ?_
      refine (pause_matches h _).bind fun _ => (isInterrupted_matches h).bind fun _ => ?_
      exact (matches_pure _).ite (ih _)
    | .timedOut | .halted .interrupted => exact hrelease.bind fun _ => matches_pure _
    | .halted .clockOverflow => exact matches_pure _

end Setting

theorem perform_matches (h : World.Alike R V W) (config : Config) (context : Handle)
    (step : Step) :
    Matches R (step.perform V config context) (step.perform W config context) := by
  unfold perform
  refine (call_matches h (.resolve _) nofun).bind fun id => (matches_pure _).ite ?_
  refine (isInterrupted_matches h).bind fun _ => (matches_pure _).ite ?_
  refine (call_matches h (.getHandler _ _) nofun).bind fun handler => (matches_pure _).ite ?_
  refine (call_matches h (.canExecute _ _) nofun).bind fun _ => ?_
  exact (Setting.repetitions_matches h _ _ _).ite (matches_pure _)

theorem execute_matches (h : World.Alike R V W) (config : Config) (context : Handle)
    (step : Step) :
    Matches R (step.execute V config context) (step.execute W config context) := by
  unfold execute
  refine (clock_matches h).bind fun started => (perform_matches h _ _ _).bind fun r => ?_
  exact (clock_matches h).bind fun _ => matches_pure _

end Step

/-! ### Runs -/

theorem Run.into_matches (h : World.Alike R V W) (config : Config) (context : Handle)
    (steps : List Step) (summary : Summary) :
    Matches R (into V config context steps summary) (into W config context steps summary) := by
  induction steps generalizing summary with
  | nil => exact matches_pure _
  | cons step rest ih =>
    unfold into
    refine (isInterrupted_matches h).bind fun _ => (matches_pure _).ite ?_
    refine (Step.execute_matches h _ _ _).bind fun ⟨outcome, done⟩ => ?_
    cases outcome with
    | error halt => exact matches_pure _
    | ok verdict =>
      dsimp only
      split
      · exact matches_pure _
      · exact (ih _).map _

theorem Binding.close_matches (h : World.Alike R V W) (b : Binding) :
    Matches R (b.close V) (b.close W) := by
  unfold close
  exact ((call_matches h .shutdown nofun).bind fun _ => matches_pure _).ite (matches_pure _)

end StepRunner
