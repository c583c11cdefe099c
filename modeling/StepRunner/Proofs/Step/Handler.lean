import Mathlib.Data.List.Basic
import StepRunner.Proofs.Step.Course
import StepRunner.Stub.Scripted

/-!
# Handlers that a step takes

A step asks for one handler at most (`Performed.asked`). Every repetition gives it back, however the
repetition ends; a handler that cannot execute the test is dropped before the first repetition, and
nothing gives it back (`gives_back_unless_refused`, `refused_handler_is_kept`).
-/

namespace StepRunner

open Stub (Call Handle)

/-- Calls that are made in repetitions. -/
def Stub.Call.isOfRepetition : Call → Bool
  | .execute _ _ _ | .start _ _ _ | .poll | .release _ _ _ => true
  | _ => false

/-- The handler is given back during the events. -/
def GivenBack (className : String) (handler context : Handle) (es : List Event) : Prop :=
  .called (.release className handler context) () ∈ es

/-- The handler is asked about a test and cannot execute it. -/
def Refused (handler : Handle) (es : List Event) : Prop :=
  ∃ id, .called (.canExecute handler id) false ∈ es

namespace Step

variable {ω : Type} {W : World ω} {w : ω}

/-! ### Repetitions -/

theorem Awaited.ofRepetition {interval deadline : Nat} {r : Ran ω Attempt}
    (h : Awaited W interval deadline w r) : ∀ c ∈ callsOf r.events, c.isOfRepetition = true :=
  fun c hc => by
    rw [h.calls_eq_poll c hc]
    rfl

namespace Setting

theorem Attempted.ofRepetition {s : Setting} {r : Ran ω Attempt} (h : s.Attempted W w r) :
    ∀ c ∈ callsOf r.events, c.isOfRepetition = true := by
  cases h with
  | blocking | unlimited => simp [callsOf, Event.call?, Call.isOfRepetition]
  | polled _ _ _ ha => simpa [callsOf, Event.call?, Call.isOfRepetition] using ha.ofRepetition

theorem Repeated.ofRepetition {s : Setting} {left : Nat} {n : UInt32}
    {r : Ran ω (Ending × UInt32)} (h : s.Repeated W left n w r) :
    ∀ c ∈ callsOf r.events, c.isOfRepetition = true := by
  have hback : ∀ {es fs : List Event}, (∀ c ∈ callsOf es, c.isOfRepetition = true) →
      (∀ c ∈ callsOf fs, c.isOfRepetition = true) →
      ∀ c ∈ callsOf (es ++ .called s.giveBack () :: fs), c.isOfRepetition = true := by
    intro es fs hes hfs c hc
    rw [callsOf_append] at hc
    rcases List.mem_append.mp hc with hc | hc
    · exact hes c hc
    · rcases List.mem_cons.mp hc with rfl | hc
      · rfl
      · exact hfs c hc
  induction h with
  | broke ha => exact ha.ofRepetition
  | last ha | interrupted ha => exact hback ha.ofRepetition (by simp [callsOf, Event.call?])
  | again ha _ _ _ _ _ ih =>
    rw [Ran.behind_events, List.append_assoc]
    exact hback ha.ofRepetition ih

/-- Repetitions that do not break down give back the handler. -/
theorem Repeated.givenBack {s : Setting} {left : Nat} {n : UInt32} {r : Ran ω (Ending × UInt32)}
    (h : s.Repeated W left n w r) (hr : r.value.1 ≠ .halted .clockOverflow) :
    GivenBack s.step.className s.handler s.context r.events := by
  have hmem : ∀ es fs : List Event, .called s.giveBack () ∈ es ++ .called s.giveBack () :: fs :=
    fun es fs => List.mem_append_right es List.mem_cons_self
  cases h with
  | broke => exact absurd rfl hr
  | last | interrupted => exact hmem _ _
  | again => exact List.mem_append_left _ (hmem _ _)

end Setting

/-! ### The whole step -/

section

variable {before after rest : List Event} {className : String} {base handler : Handle}

/-- Where a handler is asked for, if not behind the second event. -/
theorem eq_second_of_getHandler {name : String} {id : Int} {e : Event}
    (hrest : .getHandler className base ∉ callsOf rest)
    (hevents : .called (.resolve name) id :: e :: rest =
      before ++ .called (.getHandler className base) handler :: after) :
    e = .called (.getHandler className base) handler ∧ after = rest := by
  match before with
  | [] => cases (List.cons.inj hevents).1
  | [_] =>
    obtain ⟨-, htail⟩ := List.cons.inj hevents
    obtain ⟨he, hafter⟩ := List.cons.inj htail
    exact ⟨he, hafter.symm⟩
  | _ :: _ :: front =>
    obtain ⟨-, htail⟩ := List.cons.inj hevents
    obtain ⟨-, rfl⟩ := List.cons.inj htail
    have hcall : .getHandler className base ∈
        callsOf (front ++ .called (.getHandler className base) handler :: after) :=
      List.mem_filterMap.mpr ⟨_, List.mem_append_right front List.mem_cons_self, rfl⟩
    exact absurd hcall hrest

/-- What becomes of the handler that a step asks for. -/
theorem Performed.asked {config : Config} {context : Handle} {step : Step}
    {r : Ran ω (Ending × UInt32)} (h : step.Performed W config context w r)
    (hevents : r.events = before ++ .called (.getHandler className base) handler :: after) :
    className = step.className ∧ base = context ∧
      ((handler.isNull = true ∧ after = []) ∨
        (∃ id, r.value = (.failed (.notExecutable step.className id), 0) ∧
          after = [.called (.canExecute handler id) false]) ∨
        ∃ id w' r', Setting.Repeated W ⟨config, step, context, id, handler⟩ step.repeats.toNat 0 w'
            r' ∧ r.value = r'.value ∧
          after = .called (.canExecute handler id) true :: r'.events) := by
  cases h with
  | unknown | interrupted => cases before <;> simp at hevents
  | noHandler _ _ _ _ hnull =>
    obtain ⟨he, rfl⟩ := eq_second_of_getHandler List.not_mem_nil hevents
    cases he
    exact ⟨rfl, rfl, .inl ⟨hnull, rfl⟩⟩
  | @refused id =>
    obtain ⟨he, rfl⟩ := eq_second_of_getHandler (by simp [callsOf, Event.call?]) hevents
    cases he
    exact ⟨rfl, rfl, .inr (.inl ⟨id, rfl, rfl⟩)⟩
  | @repeated id handler' _ _ w₃ r' _ _ _ _ _ _ hrep =>
    have hrest : .getHandler className base ∉
        callsOf (.called (.canExecute handler' id) true :: r'.events) := fun hmem => by
      rcases List.mem_cons.mp hmem with hcall | hcall
      · cases hcall
      · cases hrep.ofRepetition _ hcall
    obtain ⟨he, rfl⟩ := eq_second_of_getHandler hrest hevents
    cases he
    exact ⟨rfl, rfl, .inr (.inr ⟨id, w₃, r', hrep, rfl, rfl⟩)⟩

end

/-- A handler that a step gets is given back before the step returns, whether with a verdict or
interrupted, just if it is not refused. If it is, the step fails and the refusal is the last that
the module hears of it. -/
theorem gives_back_unless_refused (W : World ω) (config : Config) (context : Handle) (step : Step)
    (w : ω) (hreturns : (step.execute W config context w).value.1 ≠ .error .clockOverflow) :
    let r := step.execute W config context w
    ∀ before className base handler after,
      r.events = before ++ .called (.getHandler className base) handler :: after →
      handler.isNull = false →
      (GivenBack className handler base after ↔ ¬ Refused handler after) ∧
        (Refused handler after → ∃ id, after = [.called (.canExecute handler id) false] ∧
          r.value.1 = .ok ⟨false, some (.notExecutable step.className id)⟩) := by
  intro r before className base handler after hevents hhandler
  obtain ⟨⟨⟨outcome, done⟩, es, w₁⟩, hrun⟩ : ∃ r, step.execute W config context w = r := ⟨_, rfl⟩
  obtain ⟨e, n, hp, rfl, -⟩ := performed_of_execute hrun
  have hr : r = ⟨(e.verdict, done), es, w₁⟩ := hrun
  rw [hrun] at hreturns
  rw [hr] at hevents ⊢
  obtain ⟨rfl, rfl, ⟨hnull, -⟩ | ⟨id, hvalue, rfl⟩ | ⟨id, w', r', hrep, hvalue, rfl⟩⟩ :=
    hp.asked hevents
  · rw [hhandler] at hnull
    cases hnull
  · have hrefused : Refused handler [.called (.canExecute handler id) false] :=
      ⟨id, List.mem_cons_self⟩
    cases hvalue
    exact ⟨⟨fun hback => by simp [GivenBack] at hback, fun hnot => absurd hrefused hnot⟩,
      fun _ => ⟨id, rfl, rfl⟩⟩
  · have hgo : r'.value.1 ≠ .halted .clockOverflow := fun he => by
      rw [← hvalue] at he
      exact hreturns (Ending.verdict_eq_error.mpr he)
    have hback : GivenBack step.className handler base r'.events := hrep.givenBack hgo
    have haccepted : ¬ Refused handler (.called (.canExecute handler id) true :: r'.events) := by
      rintro ⟨id', hmem⟩
      rcases List.mem_cons.mp hmem with hmem | hmem
      · cases hmem
      · have hcall : .canExecute handler id' ∈ callsOf r'.events :=
          List.mem_filterMap.mpr ⟨_, hmem, rfl⟩
        cases hrep.ofRepetition _ hcall
    exact ⟨⟨fun _ => haccepted, fun _ => List.mem_cons_of_mem _ hback⟩,
      fun hrefused => absurd hrefused haccepted⟩

/-- A handler is given back behind the first repetition, which is not passed. -/
theorem gives_back_failed :
    let step : Step := ⟨"1__A__I__f", "A", "I", "f", none, 1, false, .zero, 0⟩
    let script : Stub.Script := { results := [("1__A__I__f", [0])] }
    let r := step.execute script.world {} ⟨5⟩ script.begin
    let after : List Event := [.called (.canExecute ⟨8192⟩ 0) true,
      .called (.execute ⟨8192⟩ 0 "") (0 : Int), .called (.release "A" ⟨8192⟩ ⟨5⟩) ()]
    r.value.1 ≠ .error .clockOverflow ∧
      r.events = [.called (.resolve "1__A__I__f") (0 : Int)] ++
        .called (.getHandler "A" ⟨5⟩) (⟨8192⟩ : Handle) :: after ∧
      (⟨8192⟩ : Handle).isNull = false ∧ ¬ Refused ⟨8192⟩ after ∧
      GivenBack "A" ⟨8192⟩ ⟨5⟩ after := by
  intro step script r after
  have hvalue : r.value.1 = .ok ⟨false, none⟩ := by decide +kernel
  have hreturns : r.value.1 ≠ .error .clockOverflow := by simp [hvalue]
  have hevents : r.events = [.called (.resolve "1__A__I__f") (0 : Int)] ++
      .called (.getHandler "A" ⟨5⟩) (⟨8192⟩ : Handle) :: after := by decide +kernel
  have haccepted : ¬ Refused ⟨8192⟩ after := by simp [Refused, after]
  obtain ⟨hback, -⟩ := gives_back_unless_refused script.world {} ⟨5⟩ step script.begin hreturns
    _ _ _ _ _ hevents rfl
  exact ⟨hreturns, hevents, rfl, haccepted, hback.mpr haccepted⟩

/-- A handler that cannot execute the test is never given back. -/
theorem refused_handler_is_kept :
    let step : Step := ⟨"1__A__I__f", "A", "I", "f", none, 0, false, .zero, 0⟩
    let script : Stub.Script := { refuse := ["1__A__I__f"] }
    let r := step.execute script.world {} ⟨5⟩ script.begin
    r.value.1 = .ok ⟨false, some (.notExecutable "A" 0)⟩ ∧
      r.events = [.called (.resolve "1__A__I__f") (0 : Int),
        .called (.getHandler "A" ⟨5⟩) (⟨8192⟩ : Handle), .called (.canExecute ⟨8192⟩ 0) false] ∧
      (⟨8192⟩ : Handle).isNull = false ∧
      ∀ className handler context, ¬ GivenBack className handler context r.events := by
  intro step script r
  have hevents : r.events = [.called (.resolve "1__A__I__f") (0 : Int),
      .called (.getHandler "A" ⟨5⟩) (⟨8192⟩ : Handle), .called (.canExecute ⟨8192⟩ 0) false] := rfl
  refine ⟨rfl, hevents, rfl, fun className handler context hback => ?_⟩
  rw [hevents] at hback
  simp [GivenBack] at hback

end Step

end StepRunner
