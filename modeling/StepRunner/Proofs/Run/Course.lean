import StepRunner.Proofs.Step.Course
import StepRunner.Run

/-!
# What a run can do

`Run.Course` lists the ways of a run: it is over, or it is interrupted between two steps, or a step
halts it, or a fault ends it under the policy `abort`, or it goes on behind a step. A run is one of
them (`into_course`).
-/

namespace StepRunner.Run

open Stub (Handle)
open Step (performed_of_execute)
open Activity (bind_of_eq isInterrupted_bind pure_behind)

variable {ω : Type} {W : World ω}

/-- The ways of a run with the counts of `summary` from a state on. -/
inductive Course (W : World ω) (config : Config) (context : Handle) :
    List Step → Summary → ω → Ran ω RunResult → Prop where
  | done {summary : Summary} {w : ω} :
      Course W config context [] summary w ⟨⟨.ok (), [], summary⟩, [], w⟩
  | stopped {step : Step} {rest : List Step} {summary : Summary} {w : ω} : W.raised w = true →
      Course W config context (step :: rest) summary w
        ⟨⟨.error (.halted .interrupted), step :: rest, summary⟩, [], w⟩
  | halted {step done : Step} {rest : List Step} {summary : Summary} {w w₁ : ω} {h : Halt}
      {es : List Event} : W.raised w = false →
      step.execute W config context w = ⟨(.error h, done), es, w₁⟩ →
      Course W config context (step :: rest) summary w
        ⟨⟨.error (.halted h), done :: rest, summary⟩, es, w₁⟩
  | aborted {step done : Step} {rest : List Step} {summary : Summary} {w w₁ : ω} {v : Verdict}
      {f : StepFault} {es : List Event} : W.raised w = false →
      step.execute W config context w = ⟨(.ok v, done), es, w₁⟩ → v.fault = some f →
      config.faultPolicy = .abort →
      Course W config context (step :: rest) summary w
        ⟨⟨.error (.stepFault f), done :: rest, summary.record v.passed⟩, es, w₁⟩
  | next {step done : Step} {rest : List Step} {summary : Summary} {w w₁ : ω} {v : Verdict}
      {es : List Event} {r : Ran ω RunResult} : W.raised w = false →
      step.execute W config context w = ⟨(.ok v, done), es, w₁⟩ →
      (v.fault = none ∨ config.faultPolicy = .tolerate) →
      Course W config context rest (summary.record v.passed) w₁ r →
      Course W config context (step :: rest) summary w
        ⟨r.value.behind done, es ++ r.events, r.state⟩

theorem into_course (config : Config) (context : Handle) (steps : List Step) (summary : Summary)
    (w : ω) : Course W config context steps summary w (into W config context steps summary w) := by
  induction steps generalizing summary w with
  | nil => exact .done
  | cons step rest ih =>
    rw [into, isInterrupted_bind]
    cases hraised : W.raised w with
    | true => exact .stopped hraised
    | false =>
      obtain ⟨⟨⟨outcome, done⟩, es, w₁⟩, hrun⟩ : ∃ r, step.execute W config context w = r :=
        ⟨_, rfl⟩
      rw [if_neg Bool.false_ne_true, bind_of_eq hrun]
      match outcome with
      | .error h =>
        rw [pure_behind]
        exact .halted hraised hrun
      | .ok ⟨passed, none⟩ => exact .next hraised hrun (.inl rfl) (ih _ _)
      | .ok ⟨passed, some f⟩ =>
        cases hpolicy : config.faultPolicy with
        | tolerate =>
          dsimp only
          exact .next hraised hrun (.inr hpolicy) (ih _ _)
        | abort =>
          dsimp only
          rw [pure_behind]
          exact .aborted hraised hrun rfl hpolicy

theorem Course.leads {config : Config} {context : Handle} {steps : List Step} {summary : Summary}
    {w : ω} {r : Ran ω RunResult} (h : Course W config context steps summary w r) :
    W.Leads w r.events r.state := by
  induction h with
  | done | stopped => exact .refl _
  | halted _ hrun | aborted _ hrun =>
    obtain ⟨_, _, hp, _⟩ := performed_of_execute hrun
    exact hp.leads
  | next _ hrun _ _ ih =>
    obtain ⟨_, _, hp, _⟩ := performed_of_execute hrun
    exact hp.leads.trans ih

theorem Course.perStep {config : Config} {context : Handle} {steps : List Step}
    {summary : Summary} {w : ω} {r : Ran ω RunResult}
    (h : Course W config context steps summary w r) : PerStep r.events := by
  induction h with
  | done | stopped => exact perStep_nil
  | halted _ hrun | aborted _ hrun =>
    obtain ⟨_, _, hp, _⟩ := performed_of_execute hrun
    exact hp.perStep
  | next _ hrun _ _ ih =>
    obtain ⟨_, _, hp, _⟩ := performed_of_execute hrun
    exact perStep_append.mpr ⟨hp.perStep, ih⟩

/-- A run breaks down when a deadline cannot be told, which it cannot still. -/
theorem Course.untellable {config : Config} {context : Handle} {steps : List Step}
    {summary : Summary} {w : ω} {r : Ran ω RunResult}
    (h : Course W config context steps summary w r)
    (hr : r.value.outcome = .error (.halted .clockOverflow)) :
    deadline? (W.now r.state) config.timeout = none := by
  induction h with
  | done | stopped | aborted => cases hr
  | halted _ hrun =>
    obtain ⟨e, n, hp, he, _⟩ := performed_of_execute hrun
    cases hr
    exact hp.untellable (Ending.verdict_eq_error.mp he.symm)
  | next _ _ _ _ ih => exact ih hr

theorem Course.ne_overflow {config : Config} {context : Handle} {steps : List Step}
    {summary : Summary} {w : ω} {r : Ran ω RunResult}
    (h : Course W config context steps summary w r)
    (hclock : (deadline? (W.now r.state) config.timeout).isSome) :
    r.value.outcome ≠ .error (.halted .clockOverflow) := fun hr => by
  rw [h.untellable hr] at hclock
  cases hclock

/-- A run is interrupted by the flag alone. -/
theorem Course.raised {config : Config} {context : Handle} {steps : List Step}
    {summary : Summary} {w : ω} {r : Ran ω RunResult}
    (h : Course W config context steps summary w r)
    (hr : r.value.outcome = .error (.halted .interrupted)) : W.raised r.state = true := by
  induction h with
  | done | aborted => cases hr
  | stopped hraised => exact hraised
  | halted _ hrun =>
    obtain ⟨e, n, hp, he, _⟩ := performed_of_execute hrun
    cases hr
    exact hp.raised (Ending.verdict_eq_error.mp he.symm)
  | next _ _ _ _ ih => exact ih hr

end StepRunner.Run
