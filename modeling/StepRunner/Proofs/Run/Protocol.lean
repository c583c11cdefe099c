import Mathlib.Data.List.Basic
import StepRunner.Proofs.Run.Course
import StepRunner.Proofs.Step.Trace
import StepRunner.Stub.Scripted

/-!
# The calls made by a run

The calls of a run are those of its steps one after another, each step that was reached having one
trace. Nothing is known of the stub module, of the flag or of the clock, but that the timeout can
be represented up to the end of the run.
-/

namespace StepRunner.Run

open Stub (Handle)
open Step (performed_of_execute)

variable {ω : Type} {W : World ω}

/-- Traces of the first steps, in order. Only the last of them may be of an `interrupted` step. -/
inductive Traces (config : Config) (context : Handle) (interrupted : Prop) :
    List Step → List (List Event) → Prop where
  | stop (steps : List Step) : Traces config context interrupted steps []
  | last {step : Step} {rest : List Step} {es : List Event} :
      step.Trace config context interrupted es →
      Traces config context interrupted (step :: rest) [es]
  | next {step : Step} {rest : List Step} {es : List Event} {traces : List (List Event)} :
      step.Trace config context False es → Traces config context interrupted rest traces →
      Traces config context interrupted (step :: rest) (es :: traces)

/-- The last trace is that of a step with this fault, and each step before it has its trace. -/
inductive EndInFault (config : Config) (context : Handle) (f : StepFault) :
    List Step → List (List Event) → Prop where
  | last {step : Step} {rest : List Step} {es : List Event} :
      step.FaultTrace config context f es → EndInFault config context f (step :: rest) [es]
  | next {step : Step} {rest : List Step} {es : List Event} {traces : List (List Event)} :
      EndInFault config context f rest traces →
      EndInFault config context f (step :: rest) (es :: traces)

/-- What the outcome and the counts of a run have to do with its traces. Only an interrupted step
has a trace and is not counted. -/
structure Accords (config : Config) (context : Handle) (steps : List Step) (summary : Summary)
    (r : RunResult) (traces : List (List Event)) : Prop where
  ok : r.outcome = .ok () → traces.length = steps.length
  fault : ∀ f, r.outcome = .error (.stepFault f) → EndInFault config context f steps traces
  counted : ∃ k, r.summary.passed + r.summary.failed = summary.passed + summary.failed + k ∧
    (traces.length = k ∨
      r.outcome = .error (.halted .interrupted) ∧ traces.length = k + 1)

theorem Accords.behind {config : Config} {context : Handle} {step done : Step} {rest : List Step}
    {summary : Summary} {passed : Bool} {r : RunResult} {traces : List (List Event)}
    (h : Accords config context rest (summary.record passed) r traces) (es : List Event) :
    Accords config context (step :: rest) summary (r.behind done) (es :: traces) where
  ok hr := congrArg (· + 1) (h.ok hr)
  fault f hr := .next (h.fault f hr)
  counted := by
    obtain ⟨k, hcount, hlength⟩ := h.counted
    rw [Summary.record_reached] at hcount
    refine ⟨k + 1, ?_, hlength.imp (congrArg (· + 1)) (And.imp_right (congrArg (· + 1)))⟩
    rw [RunResult.behind, hcount]
    omega

theorem Course.traces {config : Config} {context : Handle} {steps : List Step} {summary : Summary}
    {w : ω} {r : Ran ω RunResult} (h : Course W config context steps summary w r)
    (hr : r.value.outcome ≠ .error (.halted .clockOverflow)) :
    ∃ traces,
      Traces config context (r.value.outcome = .error (.halted .interrupted)) steps traces ∧
      exchanges r.events = traces.flatten ∧
      Accords config context steps summary r.value traces := by
  induction h with
  | done => exact ⟨[], .stop _, rfl, fun _ => rfl, nofun, 0, rfl, .inl rfl⟩
  | stopped => exact ⟨[], .stop _, rfl, nofun, nofun, 0, rfl, .inl rfl⟩
  | @halted _ _ _ _ _ _ h es _ hrun =>
    obtain ⟨e, n, hp, he, -⟩ := performed_of_execute hrun
    obtain rfl := Ending.verdict_eq_error.mp he.symm
    have htrace := hp.trace (by rintro ⟨⟩; exact hr rfl)
    have hinterrupted : h = .interrupted := by
      cases h with
      | interrupted => rfl
      | clockOverflow => exact absurd rfl hr
    subst hinterrupted
    exact ⟨[exchanges es], .last (htrace.imp fun _ => rfl), by simp, nofun, nofun, 0, rfl,
      .inr ⟨rfl, rfl⟩⟩
  | @aborted _ _ _ _ _ _ _ _ es _ hrun hf _ =>
    obtain ⟨e, n, hp, he, -⟩ := performed_of_execute hrun
    have htrace := hp.trace (Ending.ne_halted he _)
    have hfault := hp.faultTrace (Ending.eq_failed he hf)
    refine ⟨[exchanges es], .last (htrace.imp fun hi => ?_), by simp, nofun, ?_, 1,
      Summary.record_reached _ _, .inl rfl⟩
    · exact absurd hi (Ending.ne_halted he _)
    · rintro _ ⟨⟩
      exact .last hfault
  | @next _ _ _ _ _ _ _ es _ _ hrun _ _ ih =>
    obtain ⟨e, n, hp, he, -⟩ := performed_of_execute hrun
    have htrace := (hp.trace (Ending.ne_halted he _)).imp (Ending.ne_halted he _)
    obtain ⟨traces, htraces, hflat, haccords⟩ := ih hr
    refine ⟨exchanges es :: traces, .next htrace htraces, ?_, haccords.behind _⟩
    rw [exchanges_append, hflat, List.flatten_cons]

/-- The call protocol of a run: with the answers of the stub module, its calls are those of the
steps reached, one trace after another. All steps are reached if the run is not ended early; if a
fault ends it, the last step reached has this fault, and its calls show it. -/
theorem into_calls (W : World ω) (config : Config) (context : Handle) (steps : List Step)
    (summary : Summary) (w : ω)
    (hclock : (deadline? (W.now (into W config context steps summary w).state)
      config.timeout).isSome) :
    let r := into W config context steps summary w
    W.Leads w r.events r.state ∧
      (∃ traces,
        Traces config context (r.value.outcome = .error (.halted .interrupted)) steps traces ∧
        exchanges r.events = traces.flatten ∧
        Accords config context steps summary r.value traces) ∧
      (r.value.outcome = .error (.halted .interrupted) → W.raised r.state = true) := by
  intro r
  have hcourse := into_course (W := W) config context steps summary w
  exact ⟨hcourse.leads, hcourse.traces (hcourse.ne_overflow hclock), hcourse.raised⟩

/-- A long-running step that passes once and then not, an unknown one and an interrupted one. -/
theorem into_calls_three_steps :
    let step (name : String) (repeats : UInt32) : Step :=
      ⟨name, "A", "I", "f", none, repeats, false, .zero, 0⟩
    let script : Stub.Script :=
      { ids := [("1__A__I__SaveTillDone", 7), ("2__A__I__f", -1), ("3__A__I__f", 8)]
        polls := [("1__A__I__SaveTillDone", 2)]
        results := [("1__A__I__SaveTillDone", [3, 0])]
        raiseAt := some 15 }
    let steps := [step "1__A__I__SaveTillDone" 4, step "2__A__I__f" 0, step "3__A__I__f" 0]
    let repetition (code : Int) : List Event :=
      [.called (.start ⟨8192⟩ 7 "") (⟨12288⟩ : Handle), .called .poll none, .called .poll none,
        .called .poll (some code), .called (.release "A" ⟨8192⟩ ⟨5⟩) ()]
    let first : List Event :=
      [.called (.resolve "1__A__I__SaveTillDone") (7 : Int),
        .called (.getHandler "A" ⟨5⟩) (⟨8192⟩ : Handle), .called (.canExecute ⟨8192⟩ 7) true] ++
      repetition 3 ++ repetition 0
    let r := into script.world {} ⟨5⟩ steps (.start ⟨0, 0, 0⟩ 3) script.begin
    (deadline? (script.world.now r.state) ({} : Config).timeout).isSome ∧
      r.value.outcome = .error (.halted .interrupted) ∧
      exchanges r.events = first ++ [.called (.resolve "2__A__I__f") (-1 : Int),
        .called (.resolve "3__A__I__f") (8 : Int)] ∧
      ∃ traces,
        Traces {} ⟨5⟩ (r.value.outcome = .error (.halted .interrupted)) steps traces ∧
        exchanges r.events = traces.flatten ∧
        Accords {} ⟨5⟩ steps (.start ⟨0, 0, 0⟩ 3) r.value traces := by
  intro step script steps repetition first r
  have hclock : (deadline? (script.world.now r.state) ({} : Config).timeout).isSome := by
    decide +kernel
  obtain ⟨-, htraces, -⟩ := into_calls script.world {} ⟨5⟩ steps _ script.begin hclock
  exact ⟨hclock, by decide +kernel, by decide +kernel, htraces⟩

end StepRunner.Run
