import StepRunner.Proofs.Run.Accounting
import StepRunner.Proofs.Step.Interrupt
import StepRunner.Stub.Scripted

/-!
# A run whose flag is raised

When the flag is first raised, one step is in flight. What is left of that step is `Prompt`, no
other step is begun, and a run that tolerates faults ends as interrupted unless the step was its
last.
-/

namespace StepRunner.Run

open Stub (Handle)
open Step (performed_of_execute)

variable {ω : Type} {W : World ω} {config : Config} {context : Handle}

/-- Under a raised flag no step is entered. -/
theorem Course.of_raised {steps : List Step} {summary : Summary} {w : ω} {r : Ran ω RunResult}
    (h : Course W config context steps summary w r) (hw : W.raised w = true) :
    r.events = [] ∧ (steps ≠ [] → r.value.outcome = .error (.halted .interrupted)) := by
  cases h with
  | done => exact ⟨rfl, fun h => absurd rfl h⟩
  | stopped => exact ⟨rfl, fun _ => rfl⟩
  | halted hlow | aborted hlow | next hlow =>
    rw [hw] at hlow
    cases hlow

theorem inFlight_of_execute {step done : Step} {w w₁ : ω} {v : Verdict} {es : List Event}
    (h : step.execute W config context w = ⟨(.ok v, done), es, w₁⟩) : inFlight es = none := by
  obtain ⟨e, n, hp, hv, -⟩ := performed_of_execute h
  exact hp.inFlight_eq_none (Ending.ne_halted hv _)

theorem Executed.inFlight {steps : List Step} {w w' : ω} {outs : List (Verdict × Step)}
    {es : List Event} (h : Executed W config context steps w outs es w') :
    inFlight es = none := by
  induction h with
  | nil => rfl
  | cons hrun _ ih => rw [inFlight_append_of_none _ (inFlight_of_execute hrun), ih]

/-- How a run winds up when the flag is first raised during `e`: the steps `front` have been
executed, `step` is in flight, and the events `after` are those that are left of it. -/
structure Caught (W : World ω) (config : Config) (context : Handle) (w : ω) (front : List Step)
    (step : Step) (rest : List Step) (outcome : Except RunError Unit) (before : List Event)
    (e : Event) (after : List Event) : Prop where
  /-- No step behind `step` has a part in the events of the run. -/
  events : ∃ outs es here w', Executed W config context front w outs es w' ∧
    before = es ++ here ∧ (step.execute W config context w').events = here ++ e :: after
  prompt : step.Prompt context before e after
  interrupted : rest ≠ [] → config.faultPolicy = .tolerate →
    outcome = .error (.halted .interrupted)

theorem Course.caught {steps : List Step} {summary : Summary} {w : ω} {r : Ran ω RunResult}
    {before after : List Event} {e : Event} (h : Course W config context steps summary w r)
    (hr : r.value.outcome ≠ .error (.halted .clockOverflow))
    (hraise : W.RaisedDuring w before e) (hevents : r.events = before ++ e :: after) :
    ∃ front step rest, steps = front ++ step :: rest ∧
      Caught W config context w front step rest r.value.outcome before e after := by
  induction h generalizing before with
  | done | stopped => simp at hevents
  | @halted step _ rest _ _ _ h _ _ hrun =>
    obtain ⟨ending, n, hp, he, -⟩ := performed_of_execute hrun
    obtain rfl := Ending.verdict_eq_error.mp he.symm
    obtain rfl : h = .interrupted := by
      cases h with
      | interrupted => rfl
      | clockOverflow => exact absurd rfl hr
    refine ⟨[], step, rest, rfl, ⟨[], [], before, _, .nil _, rfl, ?_⟩, ?_, fun _ _ => rfl⟩
    · rw [hrun]; exact hevents
    · exact hp.prompt nofun hraise hevents
  | @aborted step _ rest _ _ _ _ _ _ _ hrun _ hpolicy =>
    obtain ⟨ending, n, hp, he, -⟩ := performed_of_execute hrun
    refine ⟨[], step, rest, rfl, ⟨[], [], before, _, .nil _, rfl, ?_⟩, ?_, fun _ htolerate => ?_⟩
    · rw [hrun]; exact hevents
    · exact hp.prompt (Ending.ne_halted he _) hraise hevents
    · rw [hpolicy] at htolerate; cases htolerate
  | @next step _ rest _ w _ _ es r _ hrun _ hcourse ih =>
    obtain ⟨ending, n, hp, he, -⟩ := performed_of_execute hrun
    rcases hraise.split hp.leads hevents with
      ⟨hhigh, more, hes, rfl⟩ | ⟨-, here, rfl, hevents, hraise⟩
    · -- The flag is raised within the step, so the rest of the run makes no event.
      obtain ⟨hnone, hrest⟩ := hcourse.of_raised hhigh
      rw [hnone, List.append_nil more]
      refine ⟨[], step, rest, rfl, ⟨[], [], before, w, .nil w, rfl, ?_⟩, ?_, fun h _ => hrest h⟩
      · rw [hrun]; exact hes
      · exact hp.prompt (Ending.ne_halted he _) hraise hes
    · obtain ⟨front, last, back, rfl, ⟨outs, fs, there, w', hexec, rfl, hlast⟩, hprompt, hend⟩ :=
        ih hr hraise hevents
      refine ⟨step :: front, last, back, rfl,
        ⟨_, es ++ fs, there, w', .cons hrun hexec, by rw [List.append_assoc], hlast⟩, ?_, hend⟩
      exact hprompt.behind (inFlight_of_execute hrun)

/-- Wherever the flag is first raised, be it in a call or in a sleep, the run winds up promptly. -/
theorem into_caught (W : World ω) (config : Config) (context : Handle) (steps : List Step)
    (summary : Summary) (w : ω)
    (hclock : (deadline? (W.now (into W config context steps summary w).state)
      config.timeout).isSome)
    {before after : List Event} {e : Event}
    (hevents : (into W config context steps summary w).events = before ++ e :: after)
    (hraise : W.RaisedDuring w before e) :
    ∃ front step rest, steps = front ++ step :: rest ∧
      Caught W config context w front step rest
        (into W config context steps summary w).value.outcome before e after := by
  have hcourse := into_course (W := W) config context steps summary w
  exact hcourse.caught (hcourse.ne_overflow hclock) hraise hevents

/-- The flag is raised while a long-running step asks about its handler: it is started, polled once
and gives the handler back, and the next step is not begun. -/
theorem into_caught_at_start :
    let step (name : String) (repeats : UInt32) : Step :=
      ⟨name, "A", "I", "f", none, repeats, false, .zero, 0⟩
    let script : Stub.Script :=
      { ids := [("1__A__I__SaveTillDone", 7), ("2__A__I__f", 8)]
        polls := [("1__A__I__SaveTillDone", 3)]
        raiseAt := some 3 }
    let steps := [step "1__A__I__SaveTillDone" 4, step "2__A__I__f" 0]
    let r := into script.world {} ⟨5⟩ steps (.start ⟨0, 0, 0⟩ 2) script.begin
    (deadline? (script.world.now r.state) ({} : Config).timeout).isSome ∧
      (callsOf r.events).length = 6 ∧
      ∃ before e after, r.events = before ++ e :: after ∧
        script.world.RaisedDuring script.begin before e ∧
        ∃ front step rest, steps = front ++ step :: rest ∧
          Caught script.world {} ⟨5⟩ script.begin front step rest r.value.outcome
            before e after := by
  intro step script steps r
  have hclock : (deadline? (script.world.now r.state) ({} : Config).timeout).isSome := by
    decide +kernel
  have hcalls : (callsOf r.events).length = 6 := by decide +kernel
  have hhigh : script.world.raised r.state = true := by decide +kernel
  have hleads : script.world.Leads script.begin r.events r.state := (into_course ..).leads
  obtain ⟨before, e, after, hevents, hraise⟩ := hleads.exists_raisedDuring rfl hhigh
  exact ⟨hclock, hcalls, before, e, after, hevents, hraise,
    into_caught script.world {} ⟨5⟩ steps _ script.begin hclock hevents hraise⟩

end StepRunner.Run
