import StepRunner.Proofs.Events
import StepRunner.Run
import StepRunner.Stub.Scripted

/-!
# What the fault policy changes

A step reads only the times of a configuration (`Step.execute_congr`), so two runs that differ in
the fault policy stay together up to the first fault. There the run that aborts ends; the run that
tolerates goes on as a run of the other steps would (`into_append`).
-/

namespace StepRunner

open Stub (Handle)

variable {ω : Type} {W : World ω}

/-! ### What a step reads of a configuration -/

/-- The same for all that a step does. -/
structure Config.TimesAlike (c d : Config) : Prop where
  isLongRunning : c.isLongRunning = d.isLongRunning
  timeout : c.timeout = d.timeout
  pollInterval : c.pollInterval = d.pollInterval
  repeatPause : c.repeatPause = d.repeatPause

def Config.withPolicy (c : Config) (p : FaultPolicy) : Config := { c with faultPolicy := p }

theorem Config.timesAlike_withPolicy (c : Config) (p q : FaultPolicy) :
    (c.withPolicy p).TimesAlike (c.withPolicy q) := ⟨rfl, rfl, rfl, rfl⟩

namespace Step

variable {c d : Config}

theorem runPolled_congr (h : c.TimesAlike d) : runPolled W c = runPolled W d := by
  unfold runPolled
  rw [h.timeout, h.pollInterval]

theorem Setting.attempt_congr (h : c.TimesAlike d) (step : Step) (context : Handle) (id : Int)
    (handler : Handle) :
    Setting.attempt W ⟨c, step, context, id, handler⟩ =
      Setting.attempt W ⟨d, step, context, id, handler⟩ := by
  unfold attempt
  rw [h.isLongRunning, runPolled_congr h]

theorem Setting.repetitions_congr (h : c.TimesAlike d) (step : Step) (context : Handle) (id : Int)
    (handler : Handle) (left : Nat) (attempts : UInt32) :
    Setting.repetitions W ⟨c, step, context, id, handler⟩ left attempts =
      Setting.repetitions W ⟨d, step, context, id, handler⟩ left attempts := by
  induction left generalizing attempts with
  | zero =>
    unfold repetitions
    rw [attempt_congr h, h.timeout]
  | succ left ih =>
    unfold repetitions
    simp only [attempt_congr h, h.timeout, h.repeatPause, ih]

theorem execute_congr (h : c.TimesAlike d) (context : Handle) (step : Step) :
    step.execute W c context = step.execute W d context := by
  unfold execute perform
  simp only [Setting.repetitions_congr h]

end Step

/-- What a run did, and behind it what another did. -/
def Ran.andThen (r s : Ran ω RunResult) : Ran ω RunResult :=
  ⟨⟨s.value.outcome, r.value.steps ++ s.value.steps, s.value.summary⟩, r.events ++ s.events,
    s.state⟩

namespace Run

open Activity (bind_of_eq isInterrupted_bind pure_behind)

variable {config : Config} {context : Handle}

/-! ### Runs step by step -/

section

variable {step done : Step} {rest : List Step} {summary : Summary} {w w₁ : ω} {v : Verdict}
  {es : List Event}

theorem enter_cases (W : World ω) (config : Config) (context : Handle) (step : Step) (w : ω) :
    W.raised w = true ∨ W.raised w = false ∧ ∃ done es w₁,
      (∃ h, step.execute W config context w = ⟨(.error h, done), es, w₁⟩) ∨
        ∃ v, step.execute W config context w = ⟨(.ok v, done), es, w₁⟩ := by
  cases W.raised w with
  | true => exact .inl rfl
  | false =>
    obtain ⟨⟨⟨outcome, done⟩, es, w₁⟩, hrun⟩ : ∃ r, step.execute W config context w = r :=
      ⟨_, rfl⟩
    refine .inr ⟨rfl, done, es, w₁, ?_⟩
    cases outcome with
    | error h => exact .inl ⟨h, hrun⟩
    | ok v => exact .inr ⟨v, hrun⟩

theorem into_of_raised (hraised : W.raised w = true) :
    into W config context (step :: rest) summary w =
      ⟨⟨.error (.halted .interrupted), step :: rest, summary⟩, [], w⟩ := by
  rw [into, isInterrupted_bind, hraised]
  rfl

theorem into_of_halted {h : Halt} (hraised : W.raised w = false)
    (hrun : step.execute W config context w = ⟨(.error h, done), es, w₁⟩) :
    into W config context (step :: rest) summary w =
      ⟨⟨.error (.halted h), done :: rest, summary⟩, es, w₁⟩ := by
  rw [into, isInterrupted_bind, hraised, if_neg Bool.false_ne_true, bind_of_eq hrun, pure_behind]

theorem into_of_fault {f : StepFault} (hraised : W.raised w = false)
    (hrun : step.execute W config context w = ⟨(.ok v, done), es, w₁⟩) (hf : v.fault = some f)
    (hpolicy : config.faultPolicy = .abort) :
    into W config context (step :: rest) summary w =
      ⟨⟨.error (.stepFault f), done :: rest, summary.record v.passed⟩, es, w₁⟩ := by
  rw [into, isInterrupted_bind, hraised, if_neg Bool.false_ne_true, bind_of_eq hrun]
  dsimp only
  rw [hf, hpolicy]
  exact pure_behind _ _ _

theorem into_of_verdict (hraised : W.raised w = false)
    (hrun : step.execute W config context w = ⟨(.ok v, done), es, w₁⟩)
    (hgo : v.fault = none ∨ config.faultPolicy = .tolerate) :
    into W config context (step :: rest) summary w =
      Ran.andThen ⟨⟨.ok (), [done], summary.record v.passed⟩, es, w₁⟩
        (into W config context rest (summary.record v.passed) w₁) := by
  rw [into, isInterrupted_bind, hraised, if_neg Bool.false_ne_true, bind_of_eq hrun]
  dsimp only
  rcases hgo with hf | hpolicy
  · rw [hf]
    rfl
  · rw [hpolicy]
    cases v.fault <;> rfl

end

theorem andThen_assoc (r s t : Ran ω RunResult) :
    (r.andThen s).andThen t = r.andThen (s.andThen t) := by
  simp only [Ran.andThen, List.append_assoc]

/-- A run that gets through its steps may be given more of them. -/
theorem into_append {front : List Step} {summary : Summary} {w : ω}
    (h : (into W config context front summary w).value.outcome = .ok ()) (back : List Step) :
    into W config context (front ++ back) summary w =
      (into W config context front summary w).andThen
        (into W config context back (into W config context front summary w).value.summary
          (into W config context front summary w).state) := by
  induction front generalizing summary w with
  | nil => rfl
  | cons step rest ih =>
    rw [List.cons_append]
    rcases enter_cases W config context step w with
      hraised | ⟨hraised, done, es, w₁, ⟨_, hrun⟩ | ⟨v, hrun⟩⟩
    · rw [into_of_raised hraised] at h
      cases h
    · rw [into_of_halted hraised hrun] at h
      cases h
    · have hgo : v.fault = none ∨ config.faultPolicy = .tolerate := by
        cases hf : v.fault with
        | none => exact .inl rfl
        | some f =>
          cases hpolicy : config.faultPolicy with
          | tolerate => exact .inr rfl
          | abort =>
            rw [into_of_fault hraised hrun hf hpolicy] at h
            cases h
      rw [into_of_verdict hraised hrun hgo] at h ⊢
      rw [into_of_verdict hraised hrun hgo, ih h, andThen_assoc]
      rfl

/-! ### Faults of a run -/

/-- What is wrong with the steps that get a verdict in a run that tolerates faults, in order. -/
def faults (W : World ω) (config : Config) (context : Handle) :
    List Step → ω → List (Option StepFault)
  | [], _ => []
  | step :: rest, w =>
    if W.raised w then []
    else
      let r := step.execute W config context w
      match r.value.1 with
      | .error _ => []
      | .ok v => v.fault :: faults W config context rest r.state

theorem faults_of_verdict {step done : Step} {rest : List Step} {w w₁ : ω} {v : Verdict}
    {es : List Event} (hraised : W.raised w = false)
    (hrun : step.execute W config context w = ⟨(.ok v, done), es, w₁⟩) :
    faults W config context (step :: rest) w = v.fault :: faults W config context rest w₁ := by
  rw [faults, hraised, if_neg Bool.false_ne_true, hrun]

theorem faults_of_raised {step : Step} {rest : List Step} {w : ω} (hraised : W.raised w = true) :
    faults W config context (step :: rest) w = [] := by
  rw [faults, if_pos hraised]

theorem faults_of_halted {step done : Step} {rest : List Step} {w w₁ : ω} {h : Halt}
    {es : List Event} (hraised : W.raised w = false)
    (hrun : step.execute W config context w = ⟨(.error h, done), es, w₁⟩) :
    faults W config context (step :: rest) w = [] := by
  rw [faults, hraised, if_neg Bool.false_ne_true, hrun]

/-- The steps with a verdict are got through if faults are tolerated. -/
theorem into_take_faults (hpolicy : config.faultPolicy = .tolerate) {steps : List Step}
    (summary : Summary) {w : ω} {k : Nat} (hk : k ≤ (faults W config context steps w).length) :
    (into W config context (steps.take k) summary w).value.outcome = .ok () ∧
      (into W config context (steps.take k) summary w).value.steps.length = k := by
  induction steps generalizing summary w k with
  | nil =>
    obtain rfl := Nat.le_zero.mp hk
    exact ⟨rfl, rfl⟩
  | cons step rest ih =>
    cases k with
    | zero => exact ⟨rfl, rfl⟩
    | succ k =>
      rcases enter_cases W config context step w with
        hraised | ⟨hraised, done, es, w₁, ⟨_, hrun⟩ | ⟨v, hrun⟩⟩
      · rw [faults_of_raised hraised] at hk
        exact absurd hk (Nat.not_succ_le_zero k)
      · rw [faults_of_halted hraised hrun] at hk
        exact absurd hk (Nat.not_succ_le_zero k)
      · rw [faults_of_verdict hraised hrun, List.length_cons] at hk
        obtain ⟨hok, hlength⟩ := ih (summary.record v.passed) (Nat.le_of_succ_le_succ hk)
        rw [List.take_succ_cons, into_of_verdict hraised hrun (.inr hpolicy)]
        refine ⟨hok, ?_⟩
        rw [Ran.andThen, List.length_append, hlength, List.length_singleton, Nat.add_comm]

/-! ### Both policies -/

theorem execute_withPolicy (p q : FaultPolicy) (step : Step) :
    step.execute W (config.withPolicy p) context = step.execute W (config.withPolicy q) context :=
  Step.execute_congr (config.timesAlike_withPolicy p q) context step

theorem into_abort_of_no_fault {steps : List Step} {summary : Summary} {w : ω}
    (h : ∀ x ∈ faults W (config.withPolicy .tolerate) context steps w, x = none) :
    into W (config.withPolicy .abort) context steps summary w =
      into W (config.withPolicy .tolerate) context steps summary w := by
  induction steps generalizing summary w with
  | nil => rfl
  | cons step rest ih =>
    rcases enter_cases W (config.withPolicy .tolerate) context step w with
      hraised | ⟨hraised, done, es, w₁, ⟨_, hrun⟩ | ⟨v, hrun⟩⟩
    · rw [into_of_raised hraised, into_of_raised hraised]
    · have hrun' := hrun
      rw [execute_withPolicy .tolerate .abort] at hrun'
      rw [into_of_halted hraised hrun, into_of_halted hraised hrun']
    · have hrun' := hrun
      rw [execute_withPolicy .tolerate .abort] at hrun'
      rw [faults_of_verdict hraised hrun, List.forall_mem_cons] at h
      rw [into_of_verdict hraised hrun (.inl h.1), into_of_verdict hraised hrun' (.inl h.1),
        ih h.2]

/-- The run that aborts does what the other does up to the first fault, and nothing more. -/
theorem into_abort_of_first_fault {steps : List Step} (summary : Summary) {w : ω} {j : Nat}
    {f : StepFault}
    (hf : (faults W (config.withPolicy .tolerate) context steps w)[j]? = some (some f))
    (hfirst : ∀ i < j, (faults W (config.withPolicy .tolerate) context steps w)[i]? = some none) :
    into W (config.withPolicy .abort) context steps summary w =
      (into W (config.withPolicy .tolerate) context (steps.take (j + 1)) summary w).andThen
        ⟨⟨.error (.stepFault f), steps.drop (j + 1),
          (into W (config.withPolicy .tolerate) context (steps.take (j + 1)) summary w).value.summary⟩,
          [],
          (into W (config.withPolicy .tolerate) context (steps.take (j + 1)) summary w).state⟩ := by
  induction steps generalizing summary w j with
  | nil => cases hf
  | cons step rest ih =>
    rcases enter_cases W (config.withPolicy .tolerate) context step w with
      hraised | ⟨hraised, done, es, w₁, ⟨_, hrun⟩ | ⟨v, hrun⟩⟩
    · rw [faults_of_raised hraised] at hf
      cases hf
    · rw [faults_of_halted hraised hrun] at hf
      cases hf
    · have hrun' := hrun
      rw [execute_withPolicy .tolerate .abort] at hrun'
      rw [faults_of_verdict hraised hrun] at hf hfirst
      rw [List.take_succ_cons, List.drop_succ_cons, into_of_verdict hraised hrun (.inr rfl)]
      cases j with
      | zero =>
        have hfault : v.fault = some f := Option.some.inj hf
        rw [into_of_fault hraised hrun' hfault rfl]
        simp only [Ran.andThen, List.take_zero, into, Activity.pure_apply, List.append_nil]
        rfl
      | succ j =>
        have hnone : v.fault = none := Option.some.inj (hfirst 0 (Nat.zero_lt_succ j))
        rw [into_of_verdict hraised hrun' (.inl hnone),
          ih _ hf fun i hi => hfirst (i + 1) (Nat.succ_lt_succ hi), andThen_assoc]
        rfl

theorem exists_first_some {α : Type} (l : List (Option α)) :
    (∀ x ∈ l, x = none) ∨ ∃ (j : Nat) (a : α), l[j]? = some (some a) ∧ ∀ i < j, l[i]? = some none := by
  induction l with
  | nil => exact .inl nofun
  | cons x r ih =>
    cases x with
    | some a => exact .inr ⟨0, a, rfl, nofun⟩
    | none =>
      rcases ih with hnone | ⟨j, a, ha, hfirst⟩
      · exact .inl (List.forall_mem_cons.mpr ⟨rfl, hnone⟩)
      · refine .inr ⟨j + 1, a, ha, fun i hi => ?_⟩
        cases i with
        | zero => rfl
        | succ i => exact hfirst i (Nat.lt_of_succ_lt_succ hi)

/-- Abort is tolerate cut at the first fault. Without a fault both runs are one; else the run that
aborts is the run of the steps up to the first one with a fault, which it ends with, and the run
that tolerates has the same beginning. -/
theorem into_abort_is_cut (W : World ω) (config : Config) (context : Handle) (steps : List Step)
    (summary : Summary) (w : ω) :
    let run (p : FaultPolicy) := into W (config.withPolicy p) context
    let found := faults W (config.withPolicy .tolerate) context steps w
    ((∀ x ∈ found, x = none) ∧
      run .abort steps summary w = run .tolerate steps summary w) ∨
    ∃ j f, found[j]? = some (some f) ∧ (∀ i < j, found[i]? = some none) ∧
      let cut := run .tolerate (steps.take (j + 1)) summary w
      cut.value.outcome = .ok () ∧ cut.value.steps.length = j + 1 ∧
      run .tolerate steps summary w =
        cut.andThen (run .tolerate (steps.drop (j + 1)) cut.value.summary cut.state) ∧
      run .abort steps summary w =
        ⟨⟨.error (.stepFault f), cut.value.steps ++ steps.drop (j + 1), cut.value.summary⟩,
          cut.events, cut.state⟩ := by
  intro run found
  rcases exists_first_some found with hnone | ⟨j, f, hf, hfirst⟩
  · exact .inl ⟨hnone, into_abort_of_no_fault hnone⟩
  · have hj : j + 1 ≤ found.length := (List.getElem?_eq_some_iff.mp hf).1
    obtain ⟨hok, hlength⟩ := into_take_faults rfl summary hj
    refine .inr ⟨j, f, hf, hfirst, hok, hlength, ?_, ?_⟩
    · have happend := into_append hok (steps.drop (j + 1))
      rw [List.take_append_drop] at happend
      exact happend
    · have hcut := into_abort_of_first_fault summary hf hfirst
      rw [Ran.andThen, List.append_nil] at hcut
      exact hcut

/-- A result that is not positive parts no runs, an unknown test does. -/
example :
    let step (name : String) : Step := ⟨name, "A", "I", "f", none, 0, false, .zero, 0⟩
    let script : Stub.Script :=
      { ids := [("1__A__I__f", 7), ("2__A__I__f", -1), ("3__A__I__f", 8)]
        results := [("1__A__I__f", [0])] }
    let steps := [step "1__A__I__f", step "2__A__I__f", step "3__A__I__f"]
    faults script.world (Config.withPolicy {} .tolerate) ⟨5⟩ steps script.begin =
      [none, some (.unknownTest "2__A__I__f"), none] := by
  decide +kernel

end Run

end StepRunner
