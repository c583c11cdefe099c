import StepRunner.Activity

/-!
# Events and states

`W.Leads w es w'` says that surroundings in state `w` are in state `w'` when the events `es` have
happened to them, the answers to calls being theirs. Along events a raised flag stays raised.
-/

namespace StepRunner

open Stub (Call)

/-- The calls among events with their answers. -/
def exchanges (es : List Event) : List Event := es.filter fun e => e.call?.isSome

@[simp] theorem exchanges_nil : exchanges [] = [] := rfl

@[simp] theorem exchanges_called (c : Call) (a : c.Answer) (es : List Event) :
    exchanges (.called c a :: es) = .called c a :: exchanges es := rfl

@[simp] theorem exchanges_slept (nanos : Nat) (es : List Event) :
    exchanges (.slept nanos :: es) = exchanges es := rfl

@[simp] theorem exchanges_append (as bs : List Event) :
    exchanges (as ++ bs) = exchanges as ++ exchanges bs := by
  simp [exchanges]

/-- Where an event stands among two stretches of events. -/
theorem append_eq_append_cons {es fs before after : List Event} {e : Event}
    (h : es ++ fs = before ++ e :: after) :
    (∃ rest, es = before ++ e :: rest ∧ after = rest ++ fs) ∨
      ∃ here, before = es ++ here ∧ fs = here ++ e :: after := by
  rcases List.append_eq_append_iff.mp h with ⟨here, hbefore, hfs⟩ | ⟨rest, hes, hrest⟩
  · exact .inr ⟨here, hbefore, hfs⟩
  · cases rest with
    | nil => exact .inr ⟨[], by simpa using hes.symm, by simpa using hrest.symm⟩
    | cons f rest =>
      obtain ⟨rfl, hafter⟩ := List.cons.inj hrest
      exact .inl ⟨rest, hes, hafter⟩

theorem mem_callsOf {es before behind : List Event} {c : Call} {a : c.Answer}
    (h : es = before ++ .called c a :: behind) : c ∈ callsOf es := by
  rw [h, callsOf_append]
  exact List.mem_append_right _ List.mem_cons_self

/-- All calls among events are made for the sake of a step. -/
def PerStep (es : List Event) : Prop := ∀ c ∈ callsOf es, c.isPerStep = true

@[simp] theorem perStep_nil : PerStep [] := nofun

@[simp] theorem perStep_called {c : Call} {a : c.Answer} {es : List Event} :
    PerStep (.called c a :: es) ↔ c.isPerStep = true ∧ PerStep es := by
  simp [PerStep, callsOf, Event.call?]

@[simp] theorem perStep_slept {nanos : Nat} {es : List Event} :
    PerStep (.slept nanos :: es) ↔ PerStep es := by
  simp [PerStep, callsOf, Event.call?]

@[simp] theorem perStep_append {es fs : List Event} :
    PerStep (es ++ fs) ↔ PerStep es ∧ PerStep fs := by
  simp only [PerStep, callsOf_append, List.mem_append]
  exact ⟨fun h => ⟨fun c hc => h c (.inl hc), fun c hc => h c (.inr hc)⟩,
    fun h c hc => hc.elim (h.1 c) (h.2 c)⟩

namespace World

variable {ω : Type} {W : World ω}

/-- The events lead from one state of the surroundings to another. -/
inductive Leads (W : World ω) : ω → List Event → ω → Prop where
  | refl (w : ω) : Leads W w [] w
  | called {c : Call} {a : c.Answer} {w w₁ w₂ : ω} {es : List Event} :
      W.answer c w = (a, w₁) → Leads W w₁ es w₂ → Leads W w (.called c a :: es) w₂
  | slept {nanos : Nat} {w w₁ : ω} {es : List Event} :
      Leads W (W.sleep nanos w) es w₁ → Leads W w (.slept nanos :: es) w₁

theorem Leads.trans {w w₁ w₂ : ω} {es fs : List Event} (h : W.Leads w es w₁)
    (h' : W.Leads w₁ fs w₂) : W.Leads w (es ++ fs) w₂ := by
  induction h with
  | refl => exact h'
  | called ha _ ih => exact .called ha (ih h')
  | slept _ ih => exact .slept (ih h')

theorem Leads.raised {w w' : ω} {es : List Event} (h : W.Leads w es w') (hw : W.raised w = true) :
    W.raised w' = true := by
  induction h with
  | refl => exact hw
  | @called c a w w₁ _ _ ha _ ih =>
    have hstep := W.raised_answer c w hw
    rw [ha] at hstep
    exact ih hstep
  | slept _ ih => exact ih (W.raised_sleep _ _ hw)

end World

/-- What an activity did, as it stands behind earlier events. -/
def Ran.behind {ω α : Type} (r : Ran ω α) (es : List Event) : Ran ω α :=
  { r with events := es ++ r.events }

section

variable {ω α : Type} (r : Ran ω α) (es : List Event)

@[simp] theorem Ran.behind_value : (r.behind es).value = r.value := rfl

@[simp] theorem Ran.behind_events : (r.behind es).events = es ++ r.events := rfl

@[simp] theorem Ran.behind_state : (r.behind es).state = r.state := rfl

@[simp] theorem Ran.behind_behind (fs : List Event) :
    (r.behind es).behind fs = r.behind (fs ++ es) := by
  simp [Ran.behind]

end

/-! ### Activities step by step

The equations speak of `Ran.behind` and not of the three parts of a `Ran`: what comes behind an
activity then stands in them once. -/

namespace Activity

variable {ω α β : Type} {W : World ω}

theorem pure_behind (a : α) (es : List Event) (w : ω) :
    ((pure a : Activity ω α) w).behind es = ⟨a, es, w⟩ := by
  simp [Ran.behind]

theorem bind_of_eq {x : Activity ω α} {a : α} {es : List Event} {w w₁ : ω}
    (h : x w = ⟨a, es, w₁⟩) (f : α → Activity ω β) : (x >>= f) w = (f a w₁).behind es := by
  rw [bind_apply, h]
  rfl

theorem call_of_answer {c : Call} {a : c.Answer} {w w₁ : ω} (h : W.answer c w = (a, w₁)) :
    call W c w = ⟨a, [.called c a], w₁⟩ := by
  rw [call, h]

theorem pause_bind (nanos : Nat) (f : Unit → Activity ω β) (w : ω) :
    (pause W nanos >>= f) w = (f () (W.sleep nanos w)).behind [.slept nanos] := rfl

theorem clock_bind (f : Nat → Activity ω β) (w : ω) : (clock W >>= f) w = f (W.now w) w := rfl

theorem isInterrupted_bind (f : Bool → Activity ω β) (w : ω) :
    (isInterrupted W >>= f) w = f (W.raised w) w := rfl

end Activity

end StepRunner
