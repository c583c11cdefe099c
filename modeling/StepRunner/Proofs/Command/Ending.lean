import StepRunner.Command.Execute
import StepRunner.Proofs.Session.Counting
import StepRunner.Stub.ByName

/-!
# How a run command ends

Three things decide how the command ends: the run itself, the text report and the JSON report
(`Results`). What comes of them is worked out by `runSession_value`; `execute_run_ends` says which of
them the operator is told.
-/

namespace StepRunner

open Stub (Library)
open Activity (bind_of_eq)

variable {ω : Type} {L : Library ω}

/-! ### Faults of reports -/

theorem Report.kind_of_write {files : FileTree} {p : Path} {summary : Summary} {steps : List Step}
    {f : Fault} (h : Report.write files p summary steps = .error f) : f.kind = .io := by
  unfold Report.write at h
  cases hw : files.writeText p (render summary steps) with
  | ok files' => rw [hw] at h; cases h
  | error e => rw [hw] at h; cases h; rfl

theorem Report.kind_of_writeJson {files : FileTree} {p : Path} {summary : Summary}
    {steps : List Step} {f : Fault} (h : Report.writeJson files p summary steps = .error f) :
    f.kind = .io := by
  unfold Report.writeJson at h
  cases hd : document summary steps with
  | none => rw [hd] at h; cases h; rfl
  | some d =>
    rw [hd] at h
    dsimp only at h
    cases hw : files.writeText p (d.render 0) with
    | ok files' => rw [hw] at h; cases h
    | error e => rw [hw] at h; cases h; rfl

theorem Fault.exitStatus_eq (f : Fault) :
    f.exitStatus = if f.kind = .interrupted then 130 else 1 := by
  unfold exitStatus toClass
  cases f.kind <;> rfl

theorem Fault.exitStatus_ne_zero (f : Fault) : f.exitStatus ≠ 0 := by
  unfold exitStatus
  split <;> decide

/-! ### A run in which all steps are got through -/

/-- When a run has come to its end, none of the steps failed just if all records say so. -/
theorem Session.Fresh.failed_eq_zero_iff {W : World ω} {s : Session} (h : s.Fresh) {w : ω}
    (hok : (s.run W w).value.1 = .ok ()) :
    (s.run W w).value.2.counts.failed = 0 ↔
      ∀ step ∈ (s.run W w).value.2.steps, step.passed = true := by
  obtain ⟨hdescribed, hall⟩ := h.run (W := W) w
  have hpassed := hdescribed.passed
  have hreached := hall hok
  have hrecords : (s.run W w).value.2.steps.countP (·.passed) = (s.run W w).value.2.steps.length ↔
      ∀ step ∈ (s.run W w).value.2.steps, step.passed = true := List.countP_eq_length
  rw [← hrecords]
  show (s.run W w).value.2.summary.failed = 0 ↔ _
  omega

/-! ### Sessions of a command -/

/-- What a command gives: a fault, or an exit status. -/
def Finish.returned (f : Finish) : Except Fault Nat :=
  match f.fault with
  | some e => .error e
  | none => .ok f.status

namespace Command

theorem statusOf_eq_zero_iff (c : Counts) : statusOf c = 0 ↔ c.failed = 0 := by
  unfold statusOf
  split <;> omega

/-- What became of a run and its reports. -/
structure Results where
  run : Except Failure Unit
  /-- As the run left it. -/
  session : Session
  /-- The files with the text report. -/
  text : Except Fault FileTree
  /-- The files with the JSON report too, if one is asked for. -/
  json : Except Fault FileTree

/-- Runs a session and writes its reports, each whether or not the run and the other succeed. -/
def results (L : Library ω) (report : Path) (jsonReport : Option Path) (s : Session)
    (files : FileTree) (w : ω) : Results :=
  let ran := (s.run (L.world none) w).value
  let text := ran.2.writeReport files report
  let files := text.toOption.getD files
  let json := match jsonReport with
    | none => .ok files
    | some p => ran.2.writeJson files p
  ⟨ran.1, ran.2, text, json⟩

namespace Results

/-- The end of a command with these results, `files` being there before. -/
def finish (r : Results) (colored : Bool) (files : FileTree) : Finish :=
  concludeRun colored (r.json.toOption.getD (r.text.toOption.getD files)) r.session.counts
    (Suite.conclude r.run (r.text.map fun _ => ()) r.session.counts) (r.json.map fun _ => ())

/-- The run came to its end, both reports are written, and all steps passed. -/
structure AllWell (r : Results) : Prop where
  run : r.run = .ok ()
  text : r.text.isOk
  json : r.json.isOk
  steps : ∀ step ∈ r.session.steps, step.passed = true

/-- Reports fail with faults of kind `io`, and the counts of a run that came to its end tell whether
a step failed. -/
structure Sound (r : Results) : Prop where
  text : ∀ f, r.text = .error f → f.kind = .io
  json : ∀ f, r.json = .error f → f.kind = .io
  failed : r.run = .ok () →
    (r.session.counts.failed = 0 ↔ ∀ step ∈ r.session.steps, step.passed = true)

variable {r : Results} (colored : Bool) (files : FileTree)

theorem finish_of_fault {e : Fault} (hrun : r.run = .error (.fault e)) (hjson : r.json.isOk) :
    (r.finish colored files).returned = .error e ∧
      (r.finish colored files).status = e.exitStatus := by
  obtain ⟨run, session, text, json⟩ := r
  subst hrun
  cases json with
  | error f => cases hjson
  | ok files' => exact ⟨rfl, rfl⟩

theorem finish_of_json {f : Fault} (hjson : r.json = .error f)
    (hrun : r.run ≠ .error .clockOverflow) :
    (r.finish colored files).returned = .error f ∧
      (r.finish colored files).status = f.exitStatus := by
  obtain ⟨run, session, text, json⟩ := r
  subst hjson
  cases run with
  | error e =>
    cases e with
    | clockOverflow => exact absurd rfl hrun
    | fault e => exact ⟨rfl, rfl⟩
  | ok => cases text <;> exact ⟨rfl, rfl⟩

theorem finish_of_text {f : Fault} (hrun : r.run = .ok ()) (htext : r.text = .error f)
    (hjson : r.json.isOk) :
    (r.finish colored files).returned = .error f ∧
      (r.finish colored files).status = f.exitStatus := by
  obtain ⟨run, session, text, json⟩ := r
  subst hrun htext
  cases json with
  | error g => cases hjson
  | ok files' => exact ⟨rfl, rfl⟩

theorem finish_of_unwritten (h : r.Sound) (hrun : r.run = .ok ())
    (hunwritten : ¬ (r.text.isOk ∧ r.json.isOk)) :
    ∃ f, f.kind = .io ∧ (r.finish colored files).returned = .error f ∧
      (r.finish colored files).status = f.exitStatus := by
  cases hjson : r.json with
  | error f =>
    have hgo : r.run ≠ .error .clockOverflow := by rw [hrun]; exact nofun
    exact ⟨f, h.json f hjson, finish_of_json colored files hjson hgo⟩
  | ok files' =>
    have hok : r.json.isOk := by rw [hjson]; rfl
    cases htext : r.text with
    | error f => exact ⟨f, h.text f htext, finish_of_text colored files hrun htext hok⟩
    | ok files'' => exact absurd ⟨by rw [htext]; rfl, hok⟩ hunwritten

theorem finish_of_written (hrun : r.run = .ok ()) (htext : r.text.isOk) (hjson : r.json.isOk) :
    (r.finish colored files).returned = .ok (statusOf r.session.counts) ∧
      (r.finish colored files).status = statusOf r.session.counts := by
  obtain ⟨run, session, text, json⟩ := r
  subst hrun
  cases text with
  | error f => cases htext
  | ok files' =>
    cases json with
    | error f => cases hjson
    | ok files'' => exact ⟨rfl, rfl⟩

theorem finish_of_failed {e : Fault} (hrun : r.run = .error (.fault e)) :
    ∃ f, (r.finish colored files).returned = .error f ∧
      (r.finish colored files).status = f.exitStatus := by
  cases hjson : r.json with
  | error f =>
    have hgo : r.run ≠ .error .clockOverflow := by rw [hrun]; exact nofun
    exact ⟨f, finish_of_json colored files hjson hgo⟩
  | ok files' => exact ⟨e, finish_of_fault colored files hrun (by rw [hjson]; rfl)⟩

/-- Status 0 is for commands of which nothing and no step failed. -/
theorem finish_zero_iff (h : r.Sound) (hrun : r.run ≠ .error .clockOverflow) :
    ((r.finish colored files).returned = .ok 0 ↔ r.AllWell) ∧
      ((r.finish colored files).status = 0 ↔ r.AllWell) := by
  have hfault : ∀ f, (r.finish colored files).returned = .error f →
      (r.finish colored files).status = f.exitStatus → ¬ r.AllWell →
      ((r.finish colored files).returned = .ok 0 ↔ r.AllWell) ∧
        ((r.finish colored files).status = 0 ↔ r.AllWell) := by
    intro f hreturned hstatus hill
    rw [hreturned, hstatus]
    exact ⟨⟨nofun, fun hall => absurd hall hill⟩,
      ⟨fun hzero => absurd hzero f.exitStatus_ne_zero, fun hall => absurd hall hill⟩⟩
  cases hrun' : r.run with
  | error e =>
    cases e with
    | clockOverflow => exact absurd hrun' hrun
    | fault e =>
      obtain ⟨f, hreturned, hstatus⟩ := finish_of_failed colored files hrun'
      refine hfault f hreturned hstatus fun hall => ?_
      rw [hall.run] at hrun'
      cases hrun'
  | ok =>
    by_cases hwritten : r.text.isOk ∧ r.json.isOk
    · obtain ⟨hreturned, hstatus⟩ := finish_of_written colored files hrun' hwritten.1 hwritten.2
      have hall : statusOf r.session.counts = 0 ↔ r.AllWell := by
        rw [statusOf_eq_zero_iff, h.failed hrun']
        exact ⟨fun hsteps => ⟨hrun', hwritten.1, hwritten.2, hsteps⟩, fun hall => hall.steps⟩
      rw [hreturned, hstatus, Except.ok.injEq]
      exact ⟨hall, hall⟩
    · obtain ⟨f, -, hreturned, hstatus⟩ := finish_of_unwritten colored files h hrun' hwritten
      exact hfault f hreturned hstatus fun hall => hwritten ⟨hall.text, hall.json⟩

end Results

section

variable (L : Library ω) (colored : Bool) (report : Path) (jsonReport : Option Path) (s : Session)
  (files : FileTree) (w : ω)

theorem conclude_ne_breakdown {run : Except Failure Unit} (h : run ≠ .error .clockOverflow)
    (written : Except Fault Unit) (counts : Counts) :
    Suite.conclude run written counts ≠ .error .clockOverflow := by
  cases run with
  | error e => exact fun he => h (congrArg _ (Except.error.inj he))
  | ok => cases written <;> exact nofun

/-- What a session of a command comes to is decided by the results alone. -/
theorem runSession_value :
    let r := results L report jsonReport s files w
    (r.run = .error .clockOverflow ∧
      ∃ files', (runSession L colored report jsonReport s files w).value = .brokenDown files') ∨
    r.run ≠ .error .clockOverflow ∧
      (runSession L colored report jsonReport s files w).value = r.finish colored files := by
  obtain ⟨⟨⟨outcome, s'⟩, es, w₁⟩, hrun⟩ : ∃ x, s.run (L.world none) w = x := ⟨_, rfl⟩
  have hreport := Session.runAndReport_eq hrun files report
  unfold results runSession
  dsimp only
  rw [hrun]
  by_cases hbroken : outcome = .error .clockOverflow
  · rw [if_pos hbroken] at hreport
    refine .inl ⟨hbroken, files, ?_⟩
    rw [bind_of_eq hreport]
    cases jsonReport <;> rfl
  · rw [if_neg hbroken] at hreport
    refine .inr ⟨hbroken, ?_⟩
    rw [bind_of_eq hreport]
    unfold Results.finish
    have hne := conclude_ne_breakdown hbroken ((s'.writeReport files report).map fun _ => ())
      s'.counts
    generalize Suite.conclude outcome _ s'.counts = concluded at hne ⊢
    cases jsonReport with
    | none => rfl
    | some p =>
      cases concluded with
      | ok counts =>
        dsimp only
        cases s'.writeJson ((s'.writeReport files report).toOption.getD files) p <;> rfl
      | error e =>
        cases e with
        | clockOverflow => exact absurd rfl hne
        | fault f =>
          dsimp only
          cases s'.writeJson ((s'.writeReport files report).toOption.getD files) p <;> rfl

theorem results_sound (hs : s.Fresh) : (results L report jsonReport s files w).Sound where
  text f h := Report.kind_of_write h
  json f h := by
    cases jsonReport with
    | none => cases h
    | some p => exact Report.kind_of_writeJson h
  failed hok := hs.failed_eq_zero_iff hok

end

/-- A run command that starts in state `w` opens the session `s`, and runs it in state `w'`. -/
structure Reaches (L : Library ω) (started : Timestamp) (files : FileTree) (o : RunOptions) (w : ω)
    (c : Config) (files' : FileTree) (s : Session) (w' : ω) : Prop where
  loaded : Config.load files o.config o.overrides = .ok c
  prepared : c.prepare files = (files', .ok ())
  native : isScript o.file = false
  opened : ∃ library es, o.library = some library ∧
    Session.openLibrary L files' c started o.file library w = ⟨.ok s, es, w'⟩

section

variable {started : Timestamp} {files files' : FileTree} {o : RunOptions} {w w' : ω} {c : Config}
  {s : Session}

theorem Reaches.execute_value (h : Reaches L started files o w c files' s w') (colored : Bool) :
    ((run o).execute L started colored files w).value =
      (runSession L colored (o.report.getD (c.reportPath o.file)) o.jsonReport s files' w').value := by
  obtain ⟨library, es, hlibrary, hopened⟩ := h.opened
  rw [execute, h.loaded]
  dsimp only
  rw [runWith, h.prepared]
  dsimp only
  rw [h.native, if_neg Bool.false_ne_true, hlibrary]
  dsimp only
  rw [bind_of_eq hopened]
  rfl

theorem Reaches.fresh (h : Reaches L started files o w c files' s w') : s.Fresh := by
  obtain ⟨library, es, -, hopened⟩ := h.opened
  refine Session.Opened.fresh (.overLibrary L files' c started o.file library w ?_)
  rw [hopened]

/-- Unless the program breaks down the command ends as its results say. -/
theorem Reaches.execute_eq (h : Reaches L started files o w c files' s w') (colored : Bool)
    (hgo : (s.run (L.world none) w').value.1 ≠ .error .clockOverflow) :
    ((run o).execute L started colored files w).value =
      (results L (o.report.getD (c.reportPath o.file)) o.jsonReport s files' w').finish colored
        files' := by
  rw [h.execute_value colored]
  rcases runSession_value L colored _ o.jsonReport s files' w' with ⟨hbroken, -⟩ | ⟨-, hend⟩
  · exact absurd hbroken hgo
  · exact hend

/-- The fault of the run decides how the command ends if the JSON report could be written. A command
whose run came to its end fails if a report could not be written, and gives status 0 just if nothing
failed and all steps passed. -/
theorem execute_run_ends (h : Reaches L started files o w c files' s w') (colored : Bool) :
    let finish := ((run o).execute L started colored files w).value
    let r := results L (o.report.getD (c.reportPath o.file)) o.jsonReport s files' w'
    (∀ e, r.run = .error (.fault e) → r.json.isOk →
      finish.returned = .error e ∧ finish.status = if e.kind = .interrupted then 130 else 1) ∧
    (r.run = .ok () → ¬ (r.text.isOk ∧ r.json.isOk) →
      ∃ e, e.kind = .io ∧ finish.returned = .error e ∧ finish.status = 1) ∧
    (finish.returned = .ok 0 ↔ r.AllWell) ∧ (finish.status = 0 ↔ r.AllWell) := by
  intro finish r
  have hsound : r.Sound := results_sound L _ _ s files' w' h.fresh
  have hvalue : finish = (runSession L colored _ o.jsonReport s files' w').value :=
    h.execute_value colored
  rcases runSession_value L colored _ o.jsonReport s files' w' with
    ⟨hbroken, files'', hend⟩ | ⟨hgo, hend⟩
  · have hrun : r.run = .error .clockOverflow := hbroken
    rw [hvalue, hend, hrun]
    have hill : ¬ r.AllWell := fun hall => by
      rw [hall.run] at hrun
      cases hrun
    exact ⟨nofun, nofun, ⟨nofun, fun hall => absurd hall hill⟩,
      ⟨nofun, fun hall => absurd hall hill⟩⟩
  · have hfinish : finish = r.finish colored files' := hvalue.trans hend
    rw [hfinish]
    refine ⟨fun e hrun hjson => ?_, fun hrun hunwritten => ?_,
      r.finish_zero_iff colored files' hsound hgo⟩
    · obtain ⟨hreturned, hstatus⟩ := r.finish_of_fault colored files' hrun hjson
      exact ⟨hreturned, hstatus.trans e.exitStatus_eq⟩
    · obtain ⟨f, hkind, hreturned, hstatus⟩ :=
        r.finish_of_unwritten colored files' hsound hrun hunwritten
      refine ⟨f, hkind, hreturned, ?_⟩
      rw [hstatus, f.exitStatus_eq, hkind]
      rfl

end

/-! ### A run that is interrupted -/

section

open Stub.ByName (library)

/-- The first step of the run-file has the run interrupted. -/
def killFiles : FileTree where
  entries := [(["w", "a.run"], .file (.text "1__A__I__Kill\n2__A__I__f\n")),
    (["w", "stub.so"], .file (.library none))]
  cwd := ["w"]

def killPrepared : FileTree := killFiles.put ["w", "muveeDebug"] .directory

def killSession : Session where
  config := {}
  runFile := ⟨"a.run"⟩
  steps := [⟨"1__A__I__Kill", "A", "I", "Kill", none, 0, false, .zero, 0⟩,
    ⟨"2__A__I__f", "A", "I", "f", none, 0, false, .zero, 0⟩]
  summary := .start ⟨0, 0, 0⟩ 2
  binding := ⟨true, some ⟨4096⟩⟩

theorem prepare_kill : Config.prepare killFiles {} = (killPrepared, .ok ()) := by
  have hfree : killFiles.locate .entry ⟨"muveeDebug"⟩ = .ok (.free ["w", "muveeDebug"]) := by
    rw [FileTree.locate_of_segments .entry ["w"] ["muveeDebug"] (by decide +kernel), FileTree.walk]
    decide +kernel
  have hmade : killFiles.ensureDirectory ⟨"muveeDebug"⟩ = (killPrepared, .ok ()) := by
    rw [FileTree.ensureDirectory, FileTree.makeDirectory, hfree]
    rfl
  have hup : FileTree.upwards 10 ⟨"muveeDebug"⟩ = [⟨"muveeDebug"⟩, ⟨""⟩] := by decide +kernel
  have hchain : killFiles.makeDirectories ⟨"muveeDebug"⟩ = (killPrepared, .ok ()) := by
    show killFiles.ensureChain (FileTree.upwards 10 ⟨"muveeDebug"⟩) = _
    rw [hup, FileTree.ensureChain, if_neg (by decide), hmade]
  show ((killFiles.makeDirectories ⟨"muveeDebug"⟩).1,
    (killFiles.makeDirectories ⟨"muveeDebug"⟩).2.mapError _) = _
  rw [hchain]
  rfl

theorem open_kill : Session.openLibrary library killPrepared {} ⟨0, 0, 0⟩ ⟨"a.run"⟩
    ⟨"./stub.so"⟩ {} = ⟨.ok killSession, [.called .init true, .called .baseContext ⟨4096⟩,
      .called .bind (.ok ())], {}⟩ := by
  have hfile : killPrepared.file? ⟨"a.run"⟩ =
      some (["w", "a.run"], .text "1__A__I__Kill\n2__A__I__f\n") :=
    FileTree.file?_of_leads ["w"] ["a.run"] (by decide +kernel) (.file (by decide +kernel) rfl) rfl
  have hlibrary : killPrepared.file? ⟨"./stub.so"⟩ = some (["w", "stub.so"], .library none) :=
    FileTree.file?_of_leads ["w"] [".", "stub.so"] (by decide +kernel)
      (.idle (.inr rfl) (.file (by decide +kernel) rfl)) rfl
  have hload : library.load killPrepared ⟨"./stub.so"⟩ = .ok none := Stub.Library.load_of_plain rfl hlibrary
  let t : RunFile.Forest := .leaf ⟨"1__A__I__Kill", 1, ⟨0, 13⟩⟩ (by decide)
    (.leaf ⟨"2__A__I__f", 2, ⟨14, 24⟩⟩ (by decide) .empty)
  have hreading : ∀ read, RunFile.Reading killPrepared read
      (RunFile.fileScope ⟨"a.run"⟩ "1__A__I__Kill\n2__A__I__f\n") t _ := fun read =>
    .of_plain (by decide +kernel) (by decide +kernel) (by decide +kernel) (by decide +kernel)
      (by decide +kernel)
  have hcompile : Session.compile killPrepared {} ⟨"a.run"⟩ = .ok killSession.steps :=
    Session.compile_of_plain ⟨_, _, hfile, rfl⟩ hreading (by decide +kernel)
  have hbinding : Binding.openLibrary library killPrepared ⟨"./stub.so"⟩ {} =
      ⟨.ok ⟨true, some ⟨4096⟩⟩, [.called .init true, .called .baseContext ⟨4096⟩,
        .called .bind (.ok ())], {}⟩ := by
    rw [Binding.openLibrary, hload]
    rfl
  have hisFile : killPrepared.isFile ⟨"a.run"⟩ = true := by
    rw [FileTree.isFile, hfile]
    rfl
  rw [Session.openLibrary, if_pos hisFile, bind_of_eq hbinding]
  unfold Session.withBinding
  rw [hcompile]
  rfl

theorem reaches_kill (report jsonReport : Option Path) :
    Reaches library ⟨0, 0, 0⟩ killFiles
      { file := ⟨"a.run"⟩, library := some ⟨"./stub.so"⟩, report, jsonReport } {} {} killPrepared
      killSession {} where
  loaded := (by decide +kernel : Config.load killFiles none {} = .ok {})
  prepared := prepare_kill
  native := (by decide +kernel : isScript ⟨"a.run"⟩ = false)
  opened := ⟨_, _, rfl, open_kill⟩

theorem run_kill : (killSession.run (library.world none) {}).value.1 =
    .error (.fault interruption) := by
  decide +kernel

/-- Without a JSON report the command ends with the interruption. -/
theorem execute_run_ends_interrupted :
    let o : RunOptions := { file := ⟨"a.run"⟩, library := some ⟨"./stub.so"⟩ }
    let finish := ((run o).execute library ⟨0, 0, 0⟩ false killFiles {}).value
    Reaches library ⟨0, 0, 0⟩ killFiles o {} {} killPrepared killSession {} ∧
      finish.returned = .error interruption ∧ finish.status = 130 := by
  intro o finish
  have hreaches := reaches_kill none none
  exact ⟨hreaches, (execute_run_ends hreaches false).1 interruption run_kill rfl⟩

/-- A JSON report in a directory that does not exist: the operator is told of the report, and not
that the run was interrupted. -/
theorem unwritten_json_hides_interruption :
    let o : RunOptions :=
      { file := ⟨"a.run"⟩, library := some ⟨"./stub.so"⟩, report := some ⟨"r.txt"⟩,
        jsonReport := some ⟨"no/r.json"⟩ }
    let finish := ((run o).execute library ⟨0, 0, 0⟩ false killFiles {}).value
    let r := results library ⟨"r.txt"⟩ (some ⟨"no/r.json"⟩) killSession killPrepared {}
    Reaches library ⟨0, 0, 0⟩ killFiles o {} {} killPrepared killSession {} ∧
      r.run = .error (.fault interruption) ∧
      finish.returned = .error (.ofFileError "write" ⟨"no/r.json"⟩ .notFound) ∧
      finish.status = 1 := by
  intro o finish r
  have hreaches := reaches_kill (some ⟨"r.txt"⟩) (some ⟨"no/r.json"⟩)
  have hgo : r.run ≠ .error .clockOverflow := by
    show (killSession.run (library.world none) {}).value.1 ≠ _
    rw [run_kill]
    exact nofun
  have hjson : r.json = .error (.ofFileError "write" ⟨"no/r.json"⟩ .notFound) := by
    let s := (killSession.run (library.world none) {}).value.2
    let content := Report.render s.summary s.steps
    let files : FileTree := killPrepared.put ["w", "r.txt"] (.file (.text content))
    have hfree : killPrepared.locate .file ⟨"r.txt"⟩ = .ok (.free ["w", "r.txt"]) := by
      rw [FileTree.locate_of_segments .file ["w"] ["r.txt"] (by decide +kernel), FileTree.walk]
      decide +kernel
    have htext : s.writeReport killPrepared ⟨"r.txt"⟩ = .ok files := by
      rw [Session.writeReport, Report.write, FileTree.writeText, FileTree.write, hfree]
      rfl
    have hnowhere : files.locate .file ⟨"no/r.json"⟩ = .error .notFound := by
      rw [FileTree.locate_of_segments .file ["w"] ["no", "r.json"] (by decide +kernel),
        FileTree.walk]
      rfl
    obtain ⟨d, hd⟩ := Option.isSome_iff_exists.mp
      (by decide +kernel : (Report.document s.summary s.steps).isSome = true)
    show s.writeJson ((s.writeReport killPrepared ⟨"r.txt"⟩).toOption.getD killPrepared)
      ⟨"no/r.json"⟩ = _
    rw [htext]
    show Report.writeJson files ⟨"no/r.json"⟩ s.summary s.steps = _
    rw [Report.writeJson, hd]
    dsimp only
    rw [FileTree.writeText, FileTree.write, hnowhere]
    rfl
  have hfinish : finish = r.finish false killPrepared := hreaches.execute_eq false hgo
  obtain ⟨hreturned, hstatus⟩ := Results.finish_of_json false killPrepared hjson hgo
  exact ⟨hreaches, run_kill, hfinish ▸ hreturned, hfinish ▸ hstatus⟩

end

end Command

end StepRunner
