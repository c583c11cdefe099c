import Mathlib.Data.List.Forall2
import StepRunner.Proofs.Run.Course
import StepRunner.Stub.Scripted

/-!
# Run accounting

A run executes its first steps with a verdict each (`Executed`) and then ends in one of four ways
(`Ended`); every run that does not break down is of this form (`Course.split`). The counts are
those of the verdicts, and the records agree with them.
-/

namespace StepRunner

/-- Records of one test; only the results may differ. -/
structure Step.SameTest (s t : Step) : Prop where
  name : s.name = t.name
  className : s.className = t.className
  interfaceName : s.interfaceName = t.interfaceName
  functionName : s.functionName = t.functionName
  configFile : s.configFile = t.configFile
  repeats : s.repeats = t.repeats

theorem Step.SameTest.refl (s : Step) : s.SameTest s := ⟨rfl, rfl, rfl, rfl, rfl, rfl⟩

theorem Step.SameTest.recordEnding (s : Step) (e : Ending) (elapsed : Duration)
    (attempts : UInt32) : s.SameTest (s.recordEnding e elapsed attempts) := by
  unfold Step.recordEnding
  split <;> exact ⟨rfl, rfl, rfl, rfl, rfl, rfl⟩

namespace Run

open Stub (Handle)
open Step (performed_of_execute)

variable {ω : Type} {W : World ω} {config : Config} {context : Handle}

/-! ### The form of a run -/

/-- Steps are executed one after another; each has a verdict and leaves a record. -/
inductive Executed (W : World ω) (config : Config) (context : Handle) :
    List Step → ω → List (Verdict × Step) → List Event → ω → Prop where
  | nil (w : ω) : Executed W config context [] w [] [] w
  | cons {step done : Step} {rest : List Step} {w w₁ w₂ : ω} {v : Verdict} {es fs : List Event}
      {outs : List (Verdict × Step)} :
      step.execute W config context w = ⟨(.ok v, done), es, w₁⟩ →
      Executed W config context rest w₁ outs fs w₂ →
      Executed W config context (step :: rest) w ((v, done) :: outs) (es ++ fs) w₂

/-- The ends of a run behind the steps with the verdicts `outs`: what becomes of the other steps,
with the outcome of the run and the events that are left. -/
inductive Ended (W : World ω) (config : Config) (context : Handle) (outs : List (Verdict × Step))
    (w : ω) : List Step → Except RunError Unit → List Step → List Event → Prop where
  | complete : Ended W config context outs w [] (.ok ()) [] []
  /-- The next step is not entered. -/
  | stopped {step : Step} {rest : List Step} : W.raised w = true →
      Ended W config context outs w (step :: rest) (.error (.halted .interrupted))
        (step :: rest) []
  /-- The next step is entered but has no verdict. -/
  | halted {step done : Step} {rest : List Step} {es : List Event} {w₁ : ω} :
      step.execute W config context w = ⟨(.error .interrupted, done), es, w₁⟩ →
      Ended W config context outs w (step :: rest) (.error (.halted .interrupted))
        (done :: rest) es
  | aborted {out : Verdict × Step} {f : StepFault} {rest : List Step} :
      config.faultPolicy = .abort → outs.getLast? = some out → out.1.fault = some f →
      Ended W config context outs w rest (.error (.stepFault f)) rest []

theorem Ended.cons {out : Verdict × Step} {outs : List (Verdict × Step)} {w : ω}
    {steps left : List Step} {outcome : Except RunError Unit} {es : List Event}
    (h : Ended W config context outs w steps outcome left es) :
    Ended W config context (out :: outs) w steps outcome left es := by
  cases h with
  | complete => exact .complete
  | stopped hraised => exact .stopped hraised
  | halted hrun => exact .halted hrun
  | @aborted last _ _ hpolicy hlast hf =>
    have hlast' : (out :: outs).getLast? = some last := by simp [List.getLast?_cons, hlast]
    exact .aborted hpolicy hlast' hf

/-- The counts with the verdicts added. -/
def tally (summary : Summary) (outs : List (Verdict × Step)) : Summary :=
  outs.foldl (fun s out => s.record out.1.passed) summary

theorem Course.split {steps : List Step} {summary : Summary} {w : ω} {r : Ran ω RunResult}
    (h : Course W config context steps summary w r)
    (hr : r.value.outcome ≠ .error (.halted .clockOverflow)) :
    ∃ front back outs left es fs w', steps = front ++ back ∧
      Executed W config context front w outs es w' ∧
      Ended W config context outs w' back r.value.outcome left fs ∧
      r.value.steps = outs.map Prod.snd ++ left ∧ r.events = es ++ fs ∧
      r.value.summary = tally summary outs := by
  induction h with
  | done => exact ⟨[], [], [], [], [], [], _, rfl, .nil _, .complete, rfl, rfl, rfl⟩
  | @stopped step rest _ _ hraised =>
    exact ⟨[], _, [], _, [], [], _, rfl, .nil _, .stopped hraised, rfl, rfl, rfl⟩
  | @halted _ _ _ _ _ _ h es _ hrun =>
    cases h with
    | interrupted => exact ⟨[], _, [], _, [], es, _, rfl, .nil _, .halted hrun, rfl, rfl, rfl⟩
    | clockOverflow => exact absurd rfl hr
  | @aborted step done rest _ _ _ v f es _ hrun hf hpolicy =>
    refine ⟨[step], rest, [(v, done)], rest, es ++ [], [], _, rfl, .cons hrun (.nil _),
      .aborted hpolicy rfl hf, rfl, by simp, rfl⟩
  | @next step done rest _ _ _ v es _ _ hrun _ _ ih =>
    obtain ⟨front, back, outs, left, fs, gs, w', rfl, hexec, hend, hsteps, hevents, hsum⟩ := ih hr
    refine ⟨step :: front, back, (v, done) :: outs, left, es ++ fs, gs, w', rfl,
      .cons hrun hexec, hend.cons, ?_, ?_, hsum⟩
    · rw [RunResult.behind, hsteps]
      rfl
    · rw [hevents, List.append_assoc]

/-! ### What follows for counts and records -/

theorem tally_eq (summary : Summary) (outs : List (Verdict × Step)) :
    tally summary outs =
      { summary with
        passed := summary.passed + outs.countP (·.1.passed)
        failed := summary.failed + outs.countP (!·.1.passed) } := by
  induction outs generalizing summary with
  | nil => rfl
  | cons out outs ih =>
    rw [show tally summary (out :: outs) = tally (summary.record out.1.passed) outs from rfl, ih]
    cases hp : out.1.passed <;> simp [Summary.record, hp] <;> omega

theorem Executed.length {steps : List Step} {w w' : ω} {outs : List (Verdict × Step)}
    {es : List Event} (h : Executed W config context steps w outs es w') :
    outs.length = steps.length := by
  induction h with
  | nil => rfl
  | cons _ _ ih => rw [List.length_cons, List.length_cons, ih]

theorem Executed.passed {steps : List Step} {w w' : ω} {outs : List (Verdict × Step)}
    {es : List Event} (h : Executed W config context steps w outs es w') :
    outs.countP (·.1.passed) = (outs.map Prod.snd).countP (·.passed) := by
  induction h with
  | nil => rfl
  | @cons _ _ _ _ _ _ v _ _ _ hrun _ ih =>
    obtain ⟨e, n, -, he, rfl⟩ := performed_of_execute hrun
    simp [List.countP_cons, ih, Step.recordEnding_of_verdict he, Step.record]

theorem sameTest_of_execute {step done : Step} {w w₁ : ω} {outcome : Except Halt Verdict}
    {es : List Event} (h : step.execute W config context w = ⟨(outcome, done), es, w₁⟩) :
    step.SameTest done := by
  obtain ⟨_, _, -, -, rfl⟩ := performed_of_execute h
  exact .recordEnding ..

theorem Executed.sameTest {steps : List Step} {w w' : ω} {outs : List (Verdict × Step)}
    {es : List Event} (h : Executed W config context steps w outs es w') :
    List.Forall₂ Step.SameTest steps (outs.map Prod.snd) := by
  induction h with
  | nil => exact .nil
  | cons hrun _ ih => exact .cons (sameTest_of_execute hrun) ih

theorem Ended.sameTest {outs : List (Verdict × Step)} {w : ω} {steps left : List Step}
    {outcome : Except RunError Unit} {es : List Event}
    (h : Ended W config context outs w steps outcome left es) :
    List.Forall₂ Step.SameTest steps left := by
  cases h with
  | complete => exact .nil
  | stopped | aborted => exact List.forall₂_same.mpr fun _ _ => .refl _
  | halted hrun => exact .cons (sameTest_of_execute hrun) (List.forall₂_same.mpr fun _ _ => .refl _)

theorem Ended.tail_eq {outs : List (Verdict × Step)} {w : ω} {steps left : List Step}
    {outcome : Except RunError Unit} {es : List Event}
    (h : Ended W config context outs w steps outcome left es) : left.tail = steps.tail := by
  cases h <;> rfl

theorem Ended.eq_nil {outs : List (Verdict × Step)} {w : ω} {steps left : List Step}
    {es : List Event} (h : Ended W config context outs w steps (.ok ()) left es) : steps = [] := by
  cases h
  rfl

theorem Ended.tolerated {outs : List (Verdict × Step)} {w : ω} {steps left : List Step}
    {outcome : Except RunError Unit} {es : List Event}
    (h : Ended W config context outs w steps outcome left es)
    (hpolicy : config.faultPolicy = .tolerate) :
    (outcome = .ok () ↔ steps = []) ∧ ∀ e, outcome = .error e → e = .halted .interrupted := by
  cases h with
  | complete => simp
  | stopped | halted => simp
  | aborted habort => rw [hpolicy] at habort; cases habort

theorem Ended.failed {outs : List (Verdict × Step)} {w : ω} {steps left : List Step}
    {e : RunError} {es : List Event} (h : Ended W config context outs w steps (.error e) left es) :
    e = .halted .interrupted ∨
      ∃ out f, outs.getLast? = some out ∧ out.1.fault = some f ∧ e = .stepFault f := by
  cases h with
  | stopped | halted => exact .inl rfl
  | aborted _ hlast hf => exact .inr ⟨_, _, hlast, hf, rfl⟩

/-! ### The account -/

/-- The account of a run of `steps` with fresh counts: its first `k` steps have the verdicts and
records `outs`. -/
structure Accounted (W : World ω) (config : Config) (context : Handle) (steps : List Step) (w : ω)
    (r : Ran ω RunResult) (k : Nat) (outs : List (Verdict × Step)) : Prop where
  le : k ≤ steps.length
  /-- The first `k` steps are executed with a verdict; then the run ends, entering one more step
  at most. -/
  executed : ∃ es fs w', Executed W config context (steps.take k) w outs es w' ∧
    Ended W config context outs w' (steps.drop k) r.value.outcome (r.value.steps.drop k) fs ∧
    r.events = es ++ fs
  records : r.value.steps.take k = outs.map Prod.snd
  passed : r.value.summary.passed = (r.value.steps.take k).countP (·.passed)
  failed : r.value.summary.failed = k - r.value.summary.passed
  skipped : r.value.summary.skipped = steps.length - k
  total : r.value.summary.passed + r.value.summary.failed + r.value.summary.skipped = steps.length
  untouched : r.value.steps.drop (k + 1) = steps.drop (k + 1)
  tests : List.Forall₂ Step.SameTest steps r.value.steps
  /-- No fault ends a run that tolerates them. -/
  tolerated : config.faultPolicy = .tolerate →
    (r.value.outcome = .ok () ↔ k = steps.length) ∧
      ∀ e, r.value.outcome = .error e → e = .halted .interrupted
  /-- A run that is not interrupted ends early only with the fault of its last verdict; a result,
  positive or not, is no fault. -/
  aborted : config.faultPolicy = .abort →
    (r.value.outcome = .ok () → k = steps.length) ∧
      ∀ e, r.value.outcome = .error e → e = .halted .interrupted ∨
        ∃ out f, outs.getLast? = some out ∧ out.1.fault = some f ∧ e = .stepFault f

theorem into_accounted (W : World ω) (config : Config) (context : Handle) (started : Timestamp)
    (steps : List Step) (w : ω)
    (hclock : (deadline?
      (W.now (into W config context steps (.start started steps.length) w).state)
      config.timeout).isSome) :
    ∃ k outs, Accounted W config context steps w
      (into W config context steps (.start started steps.length) w) k outs := by
  have hcourse := into_course (W := W) config context steps (.start started steps.length) w
  obtain ⟨r, hrun⟩ : ∃ r, into W config context steps (.start started steps.length) w = r :=
    ⟨_, rfl⟩
  rw [hrun] at hcourse hclock ⊢
  obtain ⟨front, back, outs, left, es, fs, w', rfl, hexec, hend, hsteps, hevents, hsum⟩ :=
    hcourse.split (hcourse.ne_overflow hclock)
  have hlen := hexec.length
  have htake : r.value.steps.take outs.length = outs.map Prod.snd := by simp [hsteps]
  have hdrop : r.value.steps.drop outs.length = left := by simp [hsteps]
  rw [tally_eq] at hsum
  have hpassed : r.value.summary.passed = outs.countP (·.1.passed) := by
    simp [hsum, Summary.start]
  have hfailed : r.value.summary.failed = outs.countP (!·.1.passed) := by
    simp [hsum, Summary.start]
  have htotal : r.value.summary.total = (front ++ back).length := by simp [hsum, Summary.start]
  have hcount : outs.length = outs.countP (·.1.passed) + outs.countP (!·.1.passed) := by
    have hlength := List.length_eq_countP_add_countP (·.1.passed) (l := outs)
    simpa using hlength
  have hback : back = [] ↔ outs.length = (front ++ back).length := by
    rw [List.length_append, hlen, ← List.length_eq_zero_iff]
    omega
  have hle : outs.length ≤ (front ++ back).length := by
    rw [List.length_append]
    omega
  exact ⟨outs.length, outs, {
    le := hle
    executed := ⟨es, fs, w', by rw [hlen, List.take_left]; exact hexec,
      by rw [hdrop, hlen, List.drop_left]; exact hend, hevents⟩
    records := htake
    passed := by rw [htake, hpassed, hexec.passed]
    failed := by omega
    skipped := by rw [Summary.skipped]; omega
    total := by rw [Summary.skipped]; omega
    untouched := by
      rw [← List.drop_drop, ← List.drop_drop, hdrop, hlen, List.drop_left, List.drop_one,
        List.drop_one, hend.tail_eq]
    tests := by
      rw [hsteps]
      exact List.rel_append hexec.sameTest hend.sameTest
    tolerated := fun hpolicy => by
      rw [← hback]
      exact hend.tolerated hpolicy
    aborted := fun _ => by
      rw [← hback]
      exact ⟨fun hok => (hok ▸ hend).eq_nil, fun e he => (he ▸ hend).failed⟩ }⟩

/-- A result that is not positive, a fault that aborts the run and a step that is not reached. -/
theorem into_accounted_aborted :
    let step (name : String) : Step := ⟨name, "A", "I", "f", none, 0, false, .zero, 0⟩
    let script : Stub.Script :=
      { ids := [("1__A__I__f", 7), ("2__A__I__f", -1), ("3__A__I__f", 8)]
        results := [("1__A__I__f", [0])] }
    let steps := [step "1__A__I__f", step "2__A__I__f", step "3__A__I__f"]
    let config : Config := { faultPolicy := .abort }
    let r := into script.world config ⟨5⟩ steps (.start ⟨0, 0, 0⟩ 3) script.begin
    (deadline? (script.world.now r.state) config.timeout).isSome ∧
      r.value.outcome = .error (.stepFault (.unknownTest "2__A__I__f")) ∧
      ∃ k outs, Accounted script.world config ⟨5⟩ steps script.begin r k outs := by
  intro step script steps config r
  have hclock : (deadline? (script.world.now r.state) config.timeout).isSome := by
    decide +kernel
  have hfault : r.value.outcome = .error (.stepFault (.unknownTest "2__A__I__f")) := by
    decide +kernel
  exact ⟨hclock, hfault,
    into_accounted script.world config ⟨5⟩ ⟨0, 0, 0⟩ steps script.begin hclock⟩

end Run

end StepRunner
