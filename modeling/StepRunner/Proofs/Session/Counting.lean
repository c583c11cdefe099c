import StepRunner.Proofs.RunFile.Expansion
import StepRunner.Proofs.Session.Moves
import StepRunner.Proofs.Step.Compiling
import StepRunner.Stub.Scripted

/-!
# What the counts of a session tell

The counts of a session are kept from run to run, while every run writes the records of the steps
anew. Until a second run enters a step the counts describe the records (`useAll_described`); then
both runs are in the counts.
-/

namespace StepRunner

open Stub (Handle)
open Activity (bind_of_eq pure_behind)
open Step (performed_of_execute)
open Run (into_course)

variable {ω : Type} {W : World ω}

/-! ### What a run counts -/

section

variable {config : Config} {context : Handle} {step done : Step} {w w₁ : ω} {es : List Event}

theorem Step.Performed.events_ne_nil {r : Ran ω (Ending × UInt32)}
    (h : step.Performed W config context w r) : r.events ≠ [] := by
  cases h with
  | unknown | interrupted | noHandler | refused | repeated => exact List.cons_ne_nil _ _

/-- An entered step is looked up at least. -/
theorem Step.events_ne_nil {outcome : Except Halt Verdict}
    (h : step.execute W config context w = ⟨(outcome, done), es, w₁⟩) : es ≠ [] := by
  obtain ⟨e, n, hp, -, -⟩ := performed_of_execute h
  exact hp.events_ne_nil

theorem Step.passed_of_halted {h : Halt} (hstep : step.passed = false)
    (hrun : step.execute W config context w = ⟨(.error h, done), es, w₁⟩) : done.passed = false := by
  obtain ⟨e, n, -, he, rfl⟩ := performed_of_execute hrun
  unfold Step.recordEnding
  split
  · exact hstep
  · show e.passes = false
    rw [Ending.passes, ← he]

theorem Step.passed_of_verdict {v : Verdict}
    (hrun : step.execute W config context w = ⟨(.ok v, done), es, w₁⟩) : done.passed = v.passed := by
  obtain ⟨e, n, -, he, rfl⟩ := performed_of_execute hrun
  rw [Step.recordEnding_of_verdict he]
  rfl

end

namespace Run

theorem countP_passed {steps : List Step} (h : ∀ step ∈ steps, step.passed = false) :
    steps.countP (·.passed) = 0 :=
  List.countP_eq_zero.mpr fun step hstep => by rw [h step hstep]; exact Bool.false_ne_true

/-- The counts grow by the verdicts of a run, of which the records tell those that passed. -/
theorem Course.counts {config : Config} {context : Handle} {steps : List Step} {summary : Summary}
    {w : ω} {r : Ran ω RunResult} (h : Course W config context steps summary w r)
    (hsteps : ∀ step ∈ steps, step.passed = false) :
    r.value.steps.length = steps.length ∧ r.value.summary.total = summary.total ∧
      r.value.summary.passed = summary.passed + r.value.steps.countP (·.passed) ∧
      ∃ k ≤ steps.length,
        r.value.summary.passed + r.value.summary.failed = summary.passed + summary.failed + k ∧
        (r.value.outcome = .ok () → k = steps.length) := by
  induction h with
  | done => exact ⟨rfl, rfl, rfl, 0, Nat.le_refl 0, rfl, fun _ => rfl⟩
  | stopped => exact ⟨rfl, rfl, by rw [countP_passed hsteps]; rfl, 0, Nat.zero_le _, rfl, nofun⟩
  | halted _ hrun =>
    obtain ⟨hstep, hrest⟩ := List.forall_mem_cons.mp hsteps
    have hpassed := Step.passed_of_halted hstep hrun
    refine ⟨rfl, rfl, ?_, 0, Nat.zero_le _, rfl, nofun⟩
    rw [countP_passed (List.forall_mem_cons.mpr ⟨hpassed, hrest⟩)]
    rfl
  | aborted _ hrun =>
    have hrest := (List.forall_mem_cons.mp hsteps).2
    refine ⟨rfl, Summary.record_total _ _, ?_, 1, Nat.succ_le_succ (Nat.zero_le _),
      Summary.record_reached _ _, nofun⟩
    rw [Summary.record_passed, List.countP_cons, countP_passed hrest,
      Step.passed_of_verdict hrun, Nat.zero_add]
  | next _ hrun _ _ ih =>
    obtain ⟨hlength, htotal, hcount, k, hk, hreached, hall⟩ := ih (List.forall_mem_cons.mp hsteps).2
    refine ⟨congrArg (· + 1) hlength, htotal.trans (Summary.record_total _ _), ?_, k + 1,
      Nat.succ_le_succ hk, ?_, fun hok => congrArg (· + 1) (hall hok)⟩
    · rw [RunResult.behind, hcount, Summary.record_passed, List.countP_cons,
        Step.passed_of_verdict hrun]
      omega
    · rw [RunResult.behind, hreached, Summary.record_reached]
      omega

/-- Without an event no step was entered. -/
theorem Course.idle {config : Config} {context : Handle} {steps : List Step} {summary : Summary}
    {w : ω} {r : Ran ω RunResult} (h : Course W config context steps summary w r)
    (hr : r.events = []) : r.value.steps = steps ∧ r.value.summary = summary := by
  cases h with
  | done | stopped => exact ⟨rfl, rfl⟩
  | halted _ hrun | aborted _ hrun => exact absurd hr (Step.events_ne_nil hrun)
  | next _ hrun =>
    exact absurd (List.append_eq_nil_iff.mp hr).1 (Step.events_ne_nil hrun)

end Run

/-! ### What the uses of a session count -/

namespace Session

/-- No step has been run. -/
structure Fresh (s : Session) : Prop where
  steps : ∀ step ∈ s.steps, step.passed = false
  total : s.summary.total = s.steps.length
  passed : s.summary.passed = 0
  failed : s.summary.failed = 0

/-- The counts are those of the records. -/
structure Described (s : Session) : Prop where
  total : s.summary.total = s.steps.length
  passed : s.summary.passed = s.steps.countP (·.passed)
  le : s.summary.passed + s.summary.failed ≤ s.steps.length

theorem Fresh.described {s : Session} (h : s.Fresh) : s.Described where
  total := h.total
  passed := by rw [h.passed, Run.countP_passed h.steps]
  le := by rw [h.passed, h.failed]; exact Nat.zero_le _

theorem Described.counts {s : Session} (h : s.Described) :
    s.counts.passed + s.counts.failed + s.counts.skipped = s.steps.length ∧
      s.counts.passed = s.steps.countP (·.passed) := by
  have hle := h.le
  refine ⟨?_, h.passed⟩
  show s.summary.passed + s.summary.failed + (s.summary.total - _) = _
  rw [h.total]
  omega

/-- The records and the counts are the same. -/
def Kept (s s' : Session) : Prop := s'.steps = s.steps ∧ s'.summary = s.summary

theorem Fresh.kept {s s' : Session} (h : s.Fresh) (hk : Kept s s') : s'.Fresh := by
  obtain ⟨hsteps, hsummary⟩ := hk
  constructor
  · rw [hsteps]; exact h.steps
  · rw [hsteps, hsummary]; exact h.total
  · rw [hsummary]; exact h.passed
  · rw [hsummary]; exact h.failed

theorem Described.kept {s s' : Session} (h : s.Described) (hk : Kept s s') : s'.Described := by
  obtain ⟨hsteps, hsummary⟩ := hk
  constructor
  · rw [hsteps, hsummary]; exact h.total
  · rw [hsteps, hsummary]; exact h.passed
  · rw [hsteps, hsummary]; exact h.le

/-- A run of a session is a run of its steps, unless its module is closed. -/
theorem run_cases (W : World ω) (s : Session) (w : ω) :
    (∃ f, s.run W w = ⟨(.error (.fault f), s), [], w⟩) ∨
      ∃ context r, Run.Course W s.config context s.steps s.summary w r ∧
        s.run W w = ⟨(r.value.outcome.mapError RunError.failure,
          { s with steps := r.value.steps, summary := r.value.summary }), r.events, r.state⟩ := by
  unfold run
  cases s.binding.table with
  | error f => exact .inl ⟨f, rfl⟩
  | ok context =>
    have hcourse := into_course (W := W) s.config context s.steps s.summary w
    obtain ⟨r, hr⟩ : ∃ r, Run.into W s.config context s.steps s.summary w = r := ⟨_, rfl⟩
    rw [hr] at hcourse
    refine .inr ⟨context, r, hcourse, ?_⟩
    dsimp only
    rw [bind_of_eq hr, pure_behind]

theorem suite_writeReport (W : World ω) (report : Path) (s : Session) (files : FileTree) :
    (suite W).writeReport report (s, files) =
      ((s.writeReport files report).map fun _ => (),
        s, (s.writeReport files report).toOption.getD files) := by
  dsimp only [suite]
  cases s.writeReport files report <;> rfl

/-- Unless the program breaks down the report is written however the run went. -/
theorem runAndReport_eq {W : World ω} {s s' : Session} {w w₁ : ω} {es : List Event}
    {outcome : Except Failure Unit} (hrun : s.run W w = ⟨(outcome, s'), es, w₁⟩)
    (files : FileTree) (report : Path) :
    (suite W).runAndReport report (s, files) w =
      if outcome = .error .clockOverflow then ⟨(.error .clockOverflow, (s', files)), es, w₁⟩
      else
        ⟨(Suite.conclude outcome ((s'.writeReport files report).map fun _ => ()) s'.counts,
          (s', (s'.writeReport files report).toOption.getD files)), es, w₁⟩ := by
  have hsuite : (suite W).run (s, files) w = ⟨(outcome, (s', files)), es, w₁⟩ := by
    dsimp only [suite]
    rw [bind_of_eq hrun, pure_behind]
  rw [Suite.runAndReport, bind_of_eq hsuite]
  dsimp only
  split
  · rw [if_pos rfl, pure_behind]
  · next hgo =>
    have hwritten := suite_writeReport W report s' files
    rw [if_neg fun h => hgo h, pure_behind]
    show (⟨(Suite.conclude outcome ((suite W).writeReport report (s', files)).1 s'.counts,
      ((suite W).writeReport report (s', files)).2), es, w₁⟩ : Ran ω _) = _
    rw [hwritten]

/-- Writing the report leaves the session as the run left it. -/
theorem runAndReport_run (W : World ω) (s : Session) (files : FileTree) (report : Path) (w : ω) :
    ((suite W).runAndReport report (s, files) w).value.2.1 = (s.run W w).value.2 ∧
      ((suite W).runAndReport report (s, files) w).events = (s.run W w).events := by
  obtain ⟨⟨⟨outcome, s'⟩, es, w₁⟩, hrun⟩ : ∃ r, s.run W w = r := ⟨_, rfl⟩
  rw [runAndReport_eq hrun, hrun]
  split <;> exact ⟨rfl, rfl⟩

theorem Fresh.run {s : Session} (h : s.Fresh) (w : ω) :
    (s.run W w).value.2.Described ∧ ((s.run W w).value.1 = .ok () →
      (s.run W w).value.2.summary.passed + (s.run W w).value.2.summary.failed =
        (s.run W w).value.2.steps.length) := by
  rcases run_cases W s w with ⟨f, hrun⟩ | ⟨context, r, hcourse, hrun⟩
  · rw [hrun]
    exact ⟨h.described, nofun⟩
  · obtain ⟨hlength, htotal, hpassed, k, hk, hreached, hall⟩ := hcourse.counts h.steps
    rw [h.passed, Nat.zero_add] at hpassed
    rw [h.passed, h.failed, Nat.zero_add] at hreached
    rw [hrun]
    refine ⟨⟨htotal.trans (h.total.trans hlength.symm), hpassed, ?_⟩, fun hok => ?_⟩
    · exact hreached.trans_le (hk.trans hlength.ge)
    · cases hout : r.value.outcome with
      | error e => rw [hout] at hok; cases hok
      | ok => exact hreached.trans ((hall hout).trans hlength.symm)

theorem kept_run {s : Session} {w : ω} (h : (s.run W w).events = []) :
    Kept s (s.run W w).value.2 := by
  rcases run_cases W s w with ⟨f, hrun⟩ | ⟨context, r, hcourse, hrun⟩
  · rw [hrun]
    exact ⟨rfl, rfl⟩
  · rw [hrun] at h ⊢
    exact hcourse.idle h

def Use.isRun : Use ω → Bool
  | .run _ | .runAndReport _ _ _ => true
  | _ => false

/-- Whether a use is a run that enters a step. -/
def works (W : World ω) (s : Session) (u : Use ω) (w : ω) : Bool :=
  u.isRun && !(s.use W u w).events.isEmpty

/-- The number of uses that enter steps. -/
def workingRuns (W : World ω) : Session → List (Use ω) → ω → Nat
  | _, [], _ => 0
  | s, u :: us, w =>
    let r := s.use W u w
    (if s.works W u w then 1 else 0) + workingRuns W r.value us r.state

theorem kept_use {s : Session} {u : Use ω} {w : ω} (h : s.works W u w = false) :
    Kept s (s.use W u w).value := by
  cases u with
  | inspect | close | meanwhile => exact ⟨rfl, rfl⟩
  | run attached =>
    have hevents : (s.use W (.run attached) w).events = [] := by
      simpa only [works, Use.isRun, Bool.true_and, Bool.not_eq_false', List.isEmpty_iff] using h
    exact kept_run hevents
  | runAndReport attached files report =>
    obtain ⟨hsession, hevents⟩ := runAndReport_run (W.heard attached) s files report w
    have hempty : (s.use W (.runAndReport attached files report) w).events = [] := by
      simpa only [works, Use.isRun, Bool.true_and, Bool.not_eq_false', List.isEmpty_iff] using h
    show Kept s ((suite (W.heard attached)).runAndReport report (s, files) w).value.2.1
    rw [hsession]
    exact kept_run (hevents.symm.trans hempty)

theorem Fresh.use {s : Session} (h : s.Fresh) (u : Use ω) (w : ω) :
    (s.use W u w).value.Described := by
  cases u with
  | inspect | close | meanwhile => exact h.described.kept ⟨rfl, rfl⟩
  | run attached => exact (h.run w).1
  | runAndReport attached files report =>
    obtain ⟨hsession, -⟩ := runAndReport_run (W.heard attached) s files report w
    show ((suite (W.heard attached)).runAndReport report (s, files) w).value.2.1.Described
    rw [hsession]
    exact (h.run w).1

theorem Described.useAll {s : Session} (hs : s.Described) {uses : List (Use ω)} {w : ω}
    (h : workingRuns W s uses w = 0) : (s.useAll W uses w).value.Described := by
  induction uses generalizing s w with
  | nil => exact hs
  | cons u us ih =>
    rw [workingRuns, Nat.add_eq_zero_iff] at h
    have hidle : s.works W u w = false := by
      cases hw : s.works W u w with
      | false => rfl
      | true => rw [hw] at h; cases h.1
    exact ih (hs.kept (kept_use hidle)) h.2

theorem useAll_described {s : Session} (hs : s.Fresh) {uses : List (Use ω)} {w : ω}
    (h : workingRuns W s uses w ≤ 1) : (s.useAll W uses w).value.Described := by
  induction uses generalizing s w with
  | nil => exact hs.described
  | cons u us ih =>
    rw [workingRuns] at h
    cases hw : s.works W u w with
    | false =>
      rw [hw, if_neg Bool.false_ne_true, Nat.zero_add] at h
      exact ih (hs.kept (kept_use hw)) h
    | true =>
      rw [hw, if_pos rfl] at h
      have hnone := Nat.le_of_add_le_add_left (show 1 + _ ≤ 1 + 0 from h)
      exact (hs.use u w).useAll (Nat.le_zero.mp hnone)

/-! ### New sessions -/

/-- A session as it is when it is opened, in one of the two ways. -/
inductive Opened : Session → Prop where
  | overBinding {ω : Type} (W : World ω) (files : FileTree) (config : Config)
      (started : Timestamp) (runFile : Path) (binding : Binding) (w : ω) {s : Session} :
      (withBinding W files config started runFile binding w).value = .ok s → Opened s
  | overLibrary {ω : Type} (L : Stub.Library ω) (files : FileTree) (config : Config)
      (started : Timestamp) (runFile library : Path) (w : ω) {s : Session} :
      (openLibrary L files config started runFile library w).value = .ok s → Opened s

theorem passed_of_compileAll {files : FileTree} {root : Path} {is : List RunFile.Instruction}
    {steps : List Step} (h : Step.compileAll files root is = .ok steps) :
    ∀ step ∈ steps, step.passed = false := by
  intro step hstep
  obtain ⟨i, -, hi⟩ := Step.exists_compile_of_mem h hstep
  exact (Step.says_of_compile hi).passed

theorem passed_of_steps {files : FileTree} {config : Config} {runFile : Path} {steps : List Step}
    (h : compile files config runFile = .ok steps) : ∀ step ∈ steps, step.passed = false := by
  obtain ⟨is, -, h⟩ := RunFile.bind_eq_ok_iff.mp h
  cases hall : Step.compileAll files config.resourcesRoot is with
  | error e => rw [hall] at h; cases h
  | ok all =>
    rw [hall] at h
    cases h
    exact passed_of_compileAll hall

theorem fresh_of_withBinding {files : FileTree} {config : Config} {started : Timestamp}
    {runFile : Path} {binding : Binding} {w : ω} {s : Session}
    (h : (withBinding W files config started runFile binding w).value = .ok s) : s.Fresh := by
  obtain ⟨steps, hsteps⟩ : ∃ x : Except Fault (List Step),
      (do config.validate.mapError ConfigError.fault; compile files config runFile) = x := ⟨_, rfl⟩
  rw [withBinding, hsteps] at h
  cases steps with
  | error f => cases h
  | ok steps =>
    obtain ⟨⟨⟩, -, hcompile⟩ := RunFile.bind_eq_ok_iff.mp hsteps
    cases h
    exact ⟨passed_of_steps hcompile, rfl, rfl, rfl⟩

theorem Opened.fresh {s : Session} (h : Opened s) : s.Fresh := by
  cases h with
  | overBinding W files config started runFile binding w h => exact fresh_of_withBinding h
  | overLibrary L files config started runFile library w h =>
    unfold openLibrary at h
    split at h
    · obtain ⟨⟨opened, es, w₁⟩, hrun⟩ :
          ∃ r, Binding.openLibrary L files library w = r := ⟨_, rfl⟩
      rw [bind_of_eq hrun] at h
      cases opened with
      | error f => cases h
      | ok binding => exact fresh_of_withBinding h
    · cases h

/-- Whatever is done with a new session, its counts add up to its steps and count the records that
passed, as long as one run at most enters a step. -/
theorem counts_describe_steps (W : World ω) (s : Session) (hs : Opened s) (uses : List (Use ω))
    (w : ω) (h : workingRuns W s uses w ≤ 1) :
    let s' := (s.useAll W uses w).value
    s'.counts.passed + s'.counts.failed + s'.counts.skipped = s'.steps.length ∧
      s'.counts.passed = s'.steps.countP (·.passed) :=
  (useAll_described hs.fresh h).counts

/-! ### A session with one step -/

/-- A run-file without directives is compiled from its step lines. -/
theorem compile_of_plain {files : FileTree} {config : Config} {p : Path} {text : String}
    {t : RunFile.Forest} {steps : List Step} (htext : RunFile.HasText files p text)
    (hreading : ∀ read, RunFile.Reading files read (RunFile.fileScope p text) t
      (RunFile.stepLine (RunFile.fileScope p text)))
    (hsteps : Step.compileAll files config.resourcesRoot
      (t.denote (RunFile.stepLine (RunFile.fileScope p text)) RunFile.SourceLine.copies) =
        .ok steps) :
    compile files config p = .ok steps := by
  have hparse : RunFile.parseFile files p = .ok _ :=
    RunFile.readFile_eq_ok_iff.mpr ⟨text, htext, rfl, t, _, hreading _, rfl⟩
  unfold compile
  rw [hparse]
  show (Step.compileAll files _ _).mapError CompileError.fault = _
  rw [hsteps]
  rfl

def single : Session where
  config := {}
  runFile := ⟨"a.run"⟩
  steps := [⟨"1__A__I__f", "A", "I", "f", none, 0, false, .zero, 0⟩]
  summary := .start ⟨0, 0, 0⟩ 1
  binding := ⟨true, some ⟨5⟩⟩

theorem opened_single : Opened single := by
  let files : FileTree := ⟨[(["w", "a.run"], .file (.text "1__A__I__f\n"))], ["w"]⟩
  let script : Stub.Script := {}
  have hfile : files.file? ⟨"a.run"⟩ = some (["w", "a.run"], .text "1__A__I__f\n") :=
    FileTree.file?_of_leads ["w"] ["a.run"] (by decide +kernel) (.file (by decide +kernel) rfl) rfl
  let t : RunFile.Forest := .leaf ⟨"1__A__I__f", 1, ⟨0, 10⟩⟩ (by decide) .empty
  have hreading : ∀ read, RunFile.Reading files read
      (RunFile.fileScope ⟨"a.run"⟩ "1__A__I__f\n") t _ := fun read =>
    .of_plain (by decide +kernel) (by decide +kernel) (by decide +kernel) (by decide +kernel)
      (by decide +kernel)
  have hcompile : compile files {} ⟨"a.run"⟩ = .ok single.steps :=
    compile_of_plain ⟨_, _, hfile, rfl⟩ hreading (by decide +kernel)
  refine .overBinding script.world files {} ⟨0, 0, 0⟩ ⟨"a.run"⟩ ⟨true, some ⟨5⟩⟩ script.begin ?_
  unfold withBinding
  rw [hcompile]
  rfl

/-- A second run, of a session that is closed, counts nothing. -/
theorem counts_describe_steps_closed :
    let script : Stub.Script := {}
    let uses : List (Use _) := [.inspect, .run true, .close, .run true]
    let s' := (single.useAll script.world uses script.begin).value
    Opened single ∧ workingRuns script.world single uses script.begin ≤ 1 ∧
      s'.counts = ⟨1, 0, 0⟩ ∧
      s'.counts.passed + s'.counts.failed + s'.counts.skipped = s'.steps.length ∧
      s'.counts.passed = s'.steps.countP (·.passed) := by
  intro script uses s'
  have hworking : workingRuns script.world single uses script.begin ≤ 1 := by decide +kernel
  have hcounts : s'.counts = ⟨1, 0, 0⟩ := by decide +kernel
  exact ⟨opened_single, hworking, hcounts,
    counts_describe_steps script.world single opened_single uses script.begin hworking⟩

/-- A second run is counted beside the first: two steps passed, where there is one. -/
theorem counts_of_two_runs :
    let script : Stub.Script := {}
    let s' := (single.useAll script.world [.run true, .run true] script.begin).value
    Opened single ∧ s'.counts = ⟨2, 0, 0⟩ ∧ s'.steps.length = 1 ∧
      s'.counts.passed + s'.counts.failed + s'.counts.skipped ≠ s'.steps.length ∧
      s'.counts.passed ≠ s'.steps.countP (·.passed) := by
  intro script s'
  exact ⟨opened_single, by decide +kernel, by decide +kernel, by decide +kernel,
    by decide +kernel⟩

end Session

end StepRunner
