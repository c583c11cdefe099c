import StepRunner.Proofs.Report.Agreement
import StepRunner.Proofs.Session.Counting
import StepRunner.Stub.Scripted

/-!
# The report behind a run

A run leaves a session behind, and the report that is written then is that of this session, however
the run went. Whether it can be written is up to the path alone (`Report.write_of_writable`,
`Report.write_of_not_writable`) and makes no difference to the session. Of a fault of the run and
one of the report the first is told (`runAndReport_reported`).
-/

namespace StepRunner

namespace Session

variable {ω : Type} {W : World ω}

/-- A run does not break down if the time of its end can be told with a timeout added. -/
theorem run_ne_overflow {s : Session} {w : ω}
    (hclock : (deadline? (W.now (s.run W w).state) s.config.timeout).isSome) :
    (s.run W w).value.1 ≠ .error .clockOverflow := by
  obtain ⟨f, hrun⟩ | ⟨context, r, hcourse, hrun⟩ := run_cases W s w
  · rw [hrun]
    exact nofun
  · rw [hrun] at hclock ⊢
    have hgo := hcourse.ne_overflow hclock
    revert hgo
    match r.value.outcome with
    | .ok () => exact fun _ => nofun
    | .error (.stepFault _) => exact fun _ => nofun
    | .error (.halted .interrupted) => exact fun _ => nofun
    | .error (.halted .clockOverflow) => exact fun hgo => absurd rfl hgo

/-- What comes of running a session from the state `w` on and writing its report. -/
structure Reported (W : World ω) (s : Session) (files : FileTree) (report : Path) (w : ω)
    (r : Ran ω (Except Failure Counts × Session × FileTree)) : Prop where
  /-- The session is that of the run alone, wherever the report goes. -/
  session : r.value.2.1 = (s.run W w).value.2
  events : r.events = (s.run W w).events
  /-- With the report written, the run is what counts. -/
  written : files.Writable report →
    r.value.1 = (s.run W w).value.1.map fun _ => r.value.2.1.counts
  /-- A device keeps nothing of a report. -/
  content : files.Writable report → files.isDevice report = false →
    r.value.2.2.readText report = .ok (Report.render r.value.2.1.summary r.value.2.1.steps)
  /-- Without it the fault of the run is told, if there is one, and that of the report if not. -/
  unwritten : ¬ files.Writable report → r.value.2.2 = files ∧
    ∃ f, r.value.2.1.writeReport files report = .error f ∧
      r.value.1 = (s.run W w).value.1.bind fun _ => .error (.fault f)

/-- However a run goes, its report tells of the session as it stands when the report has been
written. -/
theorem runAndReport_reported (W : World ω) (s : Session) (files : FileTree) (report : Path) (w : ω)
    (hclock : (deadline? (W.now (s.run W w).state) s.config.timeout).isSome) :
    Reported W s files report w ((suite W).runAndReport report (s, files) w) := by
  have hgo := run_ne_overflow hclock
  obtain ⟨⟨⟨outcome, s'⟩, es, w₁⟩, hrun⟩ : ∃ r, s.run W w = r := ⟨_, rfl⟩
  rw [hrun] at hgo
  have hreport := runAndReport_eq hrun files report
  rw [if_neg hgo] at hreport
  rw [hreport]
  constructor
  case session | events => rw [hrun]
  case written =>
    intro hwritable
    obtain ⟨files', hwrite, -⟩ := Report.write_of_writable hwritable s'.summary s'.steps
    dsimp only
    rw [hrun, writeReport, hwrite]
    cases outcome <;> rfl
  case content =>
    intro hwritable hdevice
    obtain ⟨files', hwrite, hread⟩ := Report.write_of_writable hwritable s'.summary s'.steps
    dsimp only
    rw [writeReport, hwrite]
    exact hread hdevice
  case unwritten =>
    intro hwritable
    obtain ⟨f, hwrite⟩ := Report.write_of_not_writable hwritable s'.summary s'.steps
    dsimp only
    rw [hrun, writeReport, hwrite]
    exact ⟨rfl, f, rfl, by cases outcome <;> rfl⟩

/-- A run that is interrupted in its second step leaves a report. -/
theorem runAndReport_reported_interrupted :
    let s : Session :=
      { config := {}
        runFile := ⟨"a.run"⟩
        steps := [⟨"1__A__I__f", "A", "I", "f", none, 0, false, .zero, 0⟩,
          ⟨"2__A__I__f", "A", "I", "f", none, 0, false, .zero, 0⟩]
        summary := .start ⟨0, 0, 0⟩ 2
        binding := ⟨true, some ⟨4096⟩⟩ }
    let script : Stub.Script := { raiseAt := some 6 }
    let files : FileTree := ⟨[], ["w"]⟩
    let r := (suite script.world).runAndReport ⟨"r.txt"⟩ (s, files) script.begin
    (deadline? (script.world.now (s.run script.world script.begin).state) s.config.timeout).isSome ∧
      files.Writable ⟨"r.txt"⟩ ∧ files.isDevice ⟨"r.txt"⟩ = false ∧
      r.value.1 = .error (.fault interruption) ∧ r.value.2.1.counts = ⟨1, 0, 1⟩ ∧
      Reported script.world s files ⟨"r.txt"⟩ script.begin r := by
  intro s script files r
  have hclock : (deadline? (script.world.now (s.run script.world script.begin).state)
      s.config.timeout).isSome := by decide +kernel
  have hfree : files.locate .file ⟨"r.txt"⟩ = .ok (.free ["w", "r.txt"]) := by
    rw [FileTree.locate_of_segments .file ["w"] ["r.txt"] (by decide +kernel), FileTree.walk]
    decide +kernel
  have hwritable := FileTree.writable_of_free hfree
  have hdevice : files.isDevice ⟨"r.txt"⟩ = false := FileTree.isDevice_of_free hfree
  have hreported := runAndReport_reported script.world s files ⟨"r.txt"⟩ script.begin hclock
  have hrun : (s.run script.world script.begin).value.1 = .error (.fault interruption) := by
    decide +kernel
  have hcounts : (s.run script.world script.begin).value.2.counts = ⟨1, 0, 1⟩ := by decide +kernel
  exact ⟨hclock, hwritable, hdevice, by rw [hreported.written hwritable, hrun]; rfl,
    by rw [hreported.session, hcounts], hreported⟩

end Session

end StepRunner
