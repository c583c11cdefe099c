import Mathlib.Data.List.Forall2
import StepRunner.Proofs.Run.Accounting
import StepRunner.Proofs.RunFile.Location
import StepRunner.Proofs.Session.Counting
import StepRunner.Proofs.Text.Octets
import StepRunner.Report.Text

/-!
# Reading a text report

A report escapes nothing, so it can be read back only as far as no text in it holds a newline. The
parser cuts a run-file at its newlines, which none of the texts that are made of its lines can then
hold, and the root of the resources is the only other text in a step (`oneLine_of_compile`). Bytes
that are no text show without a newline if they hold none. A report is then cut into its lines again
(`splitAt_render`), which tell it apart from all others.
-/

namespace StepRunner

/-! ### Texts of one line -/

namespace Text

/-- No newline stands in the text. -/
def OneLine (s : String) : Prop := '\n' ∉ s.toList

instance (s : String) : Decidable (OneLine s) := inferInstanceAs (Decidable (¬ _))

theorem OneLine.append {s t : String} (hs : OneLine s) (ht : OneLine t) : OneLine (s ++ t) := by
  unfold OneLine
  rw [String.toList_append, List.mem_append, not_or]
  exact ⟨hs, ht⟩

theorem oneLine_ofList {cs : List Char} (h : '\n' ∉ cs) : OneLine (String.ofList cs) := by
  unfold OneLine
  rwa [String.toList_ofList]

theorem oneLine_toString (n : Nat) : OneLine (toString n) := by
  rw [Nat.toString_eq_ofList_toDigits]
  refine oneLine_ofList fun hmem => ?_
  have hdigit := Nat.isDigit_of_mem_toDigits (by omega) (by omega) hmem
  exact absurd hdigit (by decide)

theorem eq_of_toString_eq {m n : Nat} (h : toString m = toString n) : m = n := by
  rw [Nat.toString_eq_ofList_toDigits, Nat.toString_eq_ofList_toDigits, String.ofList_inj] at h
  have hvalue := congrArg (Nat.ofDigitChars 10 · 0) h
  rwa [Nat.ofDigitChars_ten_toDigits, Nat.ofDigitChars_ten_toDigits] at hvalue

theorem oneLine_pushn {s : String} {c : Char} (hs : OneLine s) (hc : c ≠ '\n') (n : Nat) :
    OneLine (s.pushn c n) := by
  rw [String.pushn_eq_repeat_push]
  induction n with
  | zero => exact hs
  | succ n ih =>
    unfold OneLine Nat.repeat
    rw [String.toList_push, List.mem_append, List.mem_singleton, not_or]
    exact ⟨ih, Ne.symm hc⟩

theorem trim_subset (cs : List Char) : trim cs ⊆ cs := by
  intro c hc
  rw [← takeWhile_trim_append cs]
  exact List.mem_append_left _ (List.mem_append_right _ hc)

theorem subset_of_mem_splitAt {sep : Char} {cs p : List Char} (h : p ∈ splitAt sep cs) :
    p ⊆ cs := by
  obtain ⟨front, back, hsplit⟩ := List.append_of_mem h
  intro c hc
  rw [eq_append_of_splitAt hsplit]
  exact List.mem_append_left _ (List.mem_append_right _ hc)

end Text

open Text (OneLine)

namespace Calendar

theorem oneLine_padded (width n : Nat) : OneLine (padded width n) :=
  (Text.oneLine_pushn (by decide) (by decide) _).append (Text.oneLine_toString n)

theorem oneLine_yearText (y : Int) : OneLine (yearText y) := by
  unfold yearText
  split
  · exact oneLine_padded _ _
  · refine OneLine.append ?_ (oneLine_padded _ _)
    split <;> decide

theorem oneLine_clockText (m : Moment) : OneLine (clockText m) := by
  have hcolon : OneLine ":" := by decide
  have hhour := (oneLine_padded 2 m.hour).append hcolon
  have hminute := (hhour.append (oneLine_padded 2 m.minute)).append hcolon
  exact hminute.append (oneLine_padded 2 m.second)

theorem oneLine_reportTime (t : Timestamp) : OneLine (reportTime t) := by
  have hdash : OneLine "-" := by decide
  have hcomma : OneLine ", " := by decide
  have hmonth := (oneLine_padded 2 (moment t).month).append hdash
  have hday := (hmonth.append (oneLine_padded 2 (moment t).day)).append hdash
  have hyear := (hday.append (oneLine_yearText (moment t).year)).append hcomma
  exact hyear.append (oneLine_clockText (moment t))

end Calendar

/-! ### Steps of a run-file -/

/-- No newline stands in the name of the file, be it text or not. -/
def ConfigFile.OneLine : ConfigFile → Prop
  | .path p => Text.OneLine p.text
  | .octets bytes => 10 ∉ bytes

theorem ConfigFile.OneLine.display {f : ConfigFile} (h : f.OneLine) : Text.OneLine f.display := by
  cases f with
  | path p => exact h
  | octets bytes => exact Text.oneLine_ofList (Text.newline_not_mem_decodeLossy h)

namespace Step

/-- Neither the name of the step nor that of its configuration file holds a newline. -/
structure OneLine (s : Step) : Prop where
  name : Text.OneLine s.name
  configArg : Text.OneLine s.configArg

theorem OneLine.of_configFile {s : Step} (hname : Text.OneLine s.name)
    (hfile : ∀ file ∈ s.configFile, file.OneLine) : s.OneLine := by
  refine ⟨hname, ?_⟩
  unfold Step.configArg
  cases hconfig : s.configFile with
  | none => exact List.not_mem_nil
  | some file => exact (hfile file hconfig).display

theorem SameTest.oneLine {s t : Step} (h : s.SameTest t) (hs : s.OneLine) : t.OneLine := by
  constructor
  · rw [← h.name]
    exact hs.name
  · unfold configArg
    rw [← h.configFile]
    exact hs.configArg

theorem mem_of_mem_field {text : String} {n : Nat} {c : Char}
    (h : c ∈ field (Text.splitAt ',' text.toList) n) : c ∈ text.toList := by
  rw [field, List.getD_eq_getElem?_getD] at h
  cases hfield : (Text.splitAt ',' text.toList)[n]? with
  | none =>
    rw [hfield] at h
    exact absurd h List.not_mem_nil
  | some piece =>
    rw [hfield] at h
    exact Text.subset_of_mem_splitAt (List.mem_of_getElem? hfield) (Text.trim_subset piece h)

theorem oneLine_join {p : Path} {q : String} (hp : Text.OneLine p.text) (hq : Text.OneLine q) :
    Text.OneLine (p.join q).text := by
  unfold Path.join
  split
  · exact hq
  · split
    · exact hp.append hq
    · exact (hp.append (by decide)).append hq

theorem oneLine_of_configures {files : FileTree} {root : Path} {name config : String}
    {file : Option ConfigFile} (hroot : Text.OneLine root.text) (hname : Text.OneLine name)
    (hconfig : Text.OneLine config) (h : Configures files root name config file) :
    Text.OneLine ((file.map ConfigFile.display).getD "") := by
  cases h with
  | written => exact hconfig
  | beside => exact oneLine_join (oneLine_join hroot hname) hconfig
  | none => exact List.not_mem_nil

theorem oneLine_of_compile {files : FileTree} {root : Path} {i : RunFile.Instruction} {step : Step}
    (hroot : Text.OneLine root.text) (htext : Text.OneLine i.text)
    (h : compile files root i = .ok step) : step.OneLine := by
  have hread := says_of_compile h
  have hname : Text.OneLine step.name := fun hmem =>
    htext (mem_of_mem_field (hread.name ▸ hmem))
  have hconfig : Text.OneLine (String.ofList (field (Text.splitAt ',' i.text.toList) 1)) :=
    Text.oneLine_ofList fun hmem => htext (mem_of_mem_field hmem)
  exact ⟨hname, oneLine_of_configures hroot hname hconfig hread.configFile⟩

theorem oneLine_of_compileAll {files : FileTree} {root : Path} {is : List RunFile.Instruction}
    {steps : List Step} (hroot : Text.OneLine root.text) (htext : ∀ i ∈ is, Text.OneLine i.text)
    (h : compileAll files root is = .ok steps) : ∀ step ∈ steps, step.OneLine := by
  intro step hstep
  obtain ⟨i, hi, hcompile⟩ := exists_compile_of_mem h hstep
  exact oneLine_of_compile hroot (htext i hi) hcompile

end Step

/-- The text of an instruction is part of one line. -/
theorem RunFile.oneLine_of_parse {files : FileTree} {o : Origin} {is : List Instruction}
    (h : o.parse files = .ok is) : ∀ i ∈ is, OneLine i.text := by
  have hlocated := o.located_parse files
  rw [h] at hlocated
  intro i hi
  obtain ⟨s, -, -, -, hline⟩ := hlocated i hi
  obtain ⟨c, hc⟩ := exists_lineOf_of_mem_sourceLines hline
  have htext : i.text = String.ofList c.body := congrArg SourceLine.text hc
  rw [htext]
  exact Text.oneLine_ofList fun hmem =>
    c.single (List.mem_append_left _ (List.mem_append_right _ hmem))

theorem Session.oneLine_of_compile {files : FileTree} {config : Config} {runFile : Path}
    {steps : List Step} (hroot : OneLine config.resourcesRoot.text)
    (h : compile files config runFile = .ok steps) : ∀ step ∈ steps, step.OneLine := by
  obtain ⟨is, hparse, h⟩ := RunFile.bind_eq_ok_iff.mp h
  have hfile : (RunFile.Origin.file runFile).parse files = .ok is := by
    show RunFile.parseFile files runFile = .ok is
    cases hfile : RunFile.parseFile files runFile with
    | error e => rw [hfile] at hparse; cases hparse
    | ok js => rw [hfile] at hparse; cases hparse; rfl
  cases hall : Step.compileAll files config.resourcesRoot is with
  | error e => rw [hall] at h; cases h
  | ok all =>
    rw [hall] at h
    cases h
    exact Step.oneLine_of_compileAll hroot (RunFile.oneLine_of_parse hfile) hall

theorem Run.Course.oneLine {ω : Type} {W : World ω} {config : Config} {context : Stub.Handle}
    {steps : List Step} {summary : Summary} {w : ω} {r : Ran ω RunResult}
    (h : Course W config context steps summary w r) (hsteps : ∀ s ∈ steps, s.OneLine) :
    ∀ s ∈ r.value.steps, s.OneLine := by
  induction h with
  | done | stopped => exact hsteps
  | halted _ hrun | aborted _ hrun =>
    rw [List.forall_mem_cons] at hsteps
    exact List.forall_mem_cons.mpr ⟨(sameTest_of_execute hrun).oneLine hsteps.1, hsteps.2⟩
  | next _ hrun _ _ ih =>
    rw [List.forall_mem_cons] at hsteps
    exact List.forall_mem_cons.mpr ⟨(sameTest_of_execute hrun).oneLine hsteps.1, ih hsteps.2⟩

namespace Report

/-- The steps of a run-file under a root without a newline, as runs with any modules leave them. -/
inductive Reached : List Step → Prop where
  | compiled {files : FileTree} {config : Config} {runFile : Path} {steps : List Step} :
      OneLine config.resourcesRoot.text → Session.compile files config runFile = .ok steps →
      Reached steps
  /-- Nothing is compiled here under a root that is no text. The steps of such a root may have
  configuration files whose names are bytes, the first of them those of the root. -/
  | given {steps : List Step} :
      (∀ s ∈ steps, OneLine s.name ∧ ∀ file ∈ s.configFile, file.OneLine) → Reached steps
  | run {ω : Type} (W : World ω) (config : Config) (context : Stub.Handle) (summary : Summary)
      (w : ω) {steps : List Step} : Reached steps →
      Reached (Run.into W config context steps summary w).value.steps

theorem Reached.oneLine {steps : List Step} (h : Reached steps) : ∀ s ∈ steps, s.OneLine := by
  induction h with
  | compiled hroot hcompile => exact Session.oneLine_of_compile hroot hcompile
  | given hsteps => exact fun s hs => .of_configFile (hsteps s hs).1 (hsteps s hs).2
  | @run _ W config context summary w steps _ ih =>
    exact (Run.into_course (W := W) config context steps summary w).oneLine ih

/-! ### Lines of a report -/

theorem length_headerLines (summary : Summary) : (headerLines summary).length = 5 := rfl

theorem length_stepLines (s : Step) : (stepLines s).length = 5 := rfl

theorem splitAt_join {ls : List String} (h : ∀ l ∈ ls, OneLine l) :
    Text.splitAt '\n' (String.join (ls.map (· ++ "\n"))).toList = ls.map String.toList ++ [[]] := by
  induction ls with
  | nil => rfl
  | cons l ls ih =>
    rw [List.forall_mem_cons] at h
    have hnewline : "\n".toList = ['\n'] := rfl
    rw [List.map_cons, String.join_cons, String.toList_append, String.toList_append, hnewline,
      List.append_assoc, List.singleton_append, Text.splitAt_append_cons h.1, ih h.2,
      List.map_cons, List.cons_append]

theorem oneLine_of_mem_headerLines {summary : Summary} {l : String} (h : l ∈ headerLines summary) :
    OneLine l := by
  have hlabel : ∀ {label : String} (n : Nat), OneLine label → OneLine (label ++ toString n) :=
    fun n hl => hl.append (Text.oneLine_toString n)
  simp only [headerLines, List.mem_cons, List.not_mem_nil, or_false] at h
  rcases h with rfl | rfl | rfl | rfl | rfl
  · have htime : OneLine "time:" := by decide
    exact htime.append (Calendar.oneLine_reportTime _)
  · exact hlabel _ (by decide)
  · exact hlabel _ (by decide)
  · exact hlabel _ (by decide)
  · decide

theorem oneLine_of_mem_stepLines {s : Step} (hs : s.OneLine) {l : String}
    (h : l ∈ stepLines s) : OneLine l := by
  simp only [stepLines, List.mem_cons, List.not_mem_nil, or_false] at h
  rcases h with rfl | rfl | rfl | rfl | rfl
  · exact hs.name
  · exact hs.configArg
  · split <;> decide
  · exact Text.oneLine_toString _
  · decide

/-- A report is cut at its newlines into the lines it is made of. -/
theorem splitAt_render {steps : List Step} (h : ∀ s ∈ steps, s.OneLine) (summary : Summary) :
    Text.splitAt '\n' (render summary steps).toList =
      (lines summary steps).map String.toList ++ [[]] := by
  refine splitAt_join fun l hl => ?_
  rcases List.mem_append.mp hl with hl | hl
  · exact oneLine_of_mem_headerLines hl
  · obtain ⟨s, hs, hl⟩ := List.mem_flatMap.mp hl
    exact oneLine_of_mem_stepLines (h s hs) hl

theorem length_flatMap_stepLines (steps : List Step) :
    (steps.flatMap stepLines).length = 5 * steps.length := by
  induction steps with
  | nil => rfl
  | cons s steps ih =>
    rw [List.flatMap_cons, List.length_append, ih, length_stepLines, List.length_cons]
    omega

/-- Every step has five lines. -/
theorem getElem?_flatMap_stepLines {steps : List Step} {i k : Nat} {s : Step}
    (h : steps[i]? = some s) (hk : k < 5) :
    (steps.flatMap stepLines)[5 * i + k]? = (stepLines s)[k]? := by
  induction steps generalizing i with
  | nil => cases h
  | cons t steps ih =>
    have hlen := length_stepLines t
    rw [List.flatMap_cons]
    cases i with
    | zero =>
      obtain rfl := Option.some.inj h
      rw [Nat.mul_zero, Nat.zero_add, List.getElem?_append_left (by omega)]
    | succ i =>
      have hindex : 5 * (i + 1) + k - 5 = 5 * i + k := by omega
      rw [List.getElem?_append_right (by omega), hlen, hindex]
      exact ih h

/-- What a report tells of a step. -/
structure Told where
  name : String
  configArg : String
  passed : Bool
  millis : Nat
  deriving DecidableEq, Repr

def told (s : Step) : Told := ⟨s.name, s.configArg, s.passed, s.elapsed.millis⟩

theorem stepLines_inj {s t : Step} (h : stepLines s = stepLines t) : told s = told t := by
  simp only [stepLines, List.cons.injEq, and_true] at h
  obtain ⟨hname, hconfig, hpassed, hmillis⟩ := h
  have hpassed' : s.passed = t.passed := by
    cases hs : s.passed <;> cases ht : t.passed <;> simp [hs, ht] at hpassed ⊢
  unfold told
  rw [hname, hconfig, hpassed', Text.eq_of_toString_eq hmillis]

theorem flatMap_stepLines_inj {steps steps' : List Step}
    (h : steps.flatMap stepLines = steps'.flatMap stepLines) :
    steps.map told = steps'.map told := by
  induction steps generalizing steps' with
  | nil =>
    cases steps' with
    | nil => rfl
    | cons t steps' => cases h
  | cons s steps ih =>
    cases steps' with
    | nil => cases h
    | cons t steps' =>
      rw [List.flatMap_cons, List.flatMap_cons] at h
      obtain ⟨hs, hrest⟩ := List.append_inj h rfl
      rw [List.map_cons, List.map_cons, stepLines_inj hs, ih hrest]

theorem headerLines_inj {summary summary' : Summary}
    (h : headerLines summary = headerLines summary') :
    Calendar.reportTime summary.startedAt = Calendar.reportTime summary'.startedAt ∧
      summary.counts = summary'.counts := by
  simp only [headerLines, List.cons.injEq, String.append_right_inj, and_true] at h
  obtain ⟨htime, hpassed, hfailed, hskipped⟩ := h
  unfold Summary.counts
  rw [Text.eq_of_toString_eq hpassed, Text.eq_of_toString_eq hfailed,
    Text.eq_of_toString_eq hskipped]
  exact ⟨htime, rfl⟩

/-- The pieces of a report between its newlines, and what each of them is. -/
structure Pieces (summary : Summary) (steps : List Step) (ps : List (List Char)) : Prop where
  length : ps.length = 5 + 5 * steps.length + 1
  time : ps[0]? = some ("time:" ++ Calendar.reportTime summary.startedAt).toList
  passes : ps[1]? = some ("passes:" ++ toString summary.passed).toList
  failures : ps[2]? = some ("failures:" ++ toString summary.failed).toList
  untested : ps[3]? = some ("untested:" ++ toString summary.skipped).toList
  blank : ps[4]? = some []
  step : ∀ i s, steps[i]? = some s →
    ps[5 + 5 * i]? = some s.name.toList ∧
    ps[6 + 5 * i]? = some s.configArg.toList ∧
    ps[7 + 5 * i]? = some [if s.passed then '1' else '0'] ∧
    ps[8 + 5 * i]? = some (toString s.elapsed.millis).toList ∧
    ps[9 + 5 * i]? = some []
  last : ps[5 + 5 * steps.length]? = some []

theorem pieces_of_lines (summary : Summary) (steps : List Step) :
    Pieces summary steps ((lines summary steps).map String.toList ++ [[]]) := by
  have hlen : (lines summary steps).length = 5 + 5 * steps.length := by
    rw [lines, List.length_append, length_flatMap_stepLines, length_headerLines]
  have hline : ∀ {n : Nat} {l : String}, (lines summary steps)[n]? = some l →
      ((lines summary steps).map String.toList ++ [[]])[n]? = some l.toList := by
    intro n l hl
    obtain ⟨hn, -⟩ := List.getElem?_eq_some_iff.mp hl
    rw [List.getElem?_append_left (by rwa [List.length_map]), List.getElem?_map, hl]
    rfl
  have hstep : ∀ {i k : Nat} {s : Step} {l : String}, steps[i]? = some s → k < 5 →
      (stepLines s)[k]? = some l → (lines summary steps)[5 + k + 5 * i]? = some l := by
    intro i k s l hs hk hl
    have hheader := length_headerLines summary
    have hindex : 5 + k + 5 * i - 5 = 5 * i + k := by omega
    rw [lines, List.getElem?_append_right (by omega), hheader, hindex,
      getElem?_flatMap_stepLines hs hk, hl]
  refine {
    length := by rw [List.length_append, List.length_map, hlen]; rfl
    time := hline rfl
    passes := hline rfl
    failures := hline rfl
    untested := hline rfl
    blank := hline (l := "") rfl
    step := fun i s hs => ⟨hline (hstep (k := 0) hs (by omega) rfl),
      hline (hstep (k := 1) hs (by omega) rfl), ?_, hline (hstep (k := 3) hs (by omega) rfl),
      hline (l := "") (hstep (k := 4) hs (by omega) rfl)⟩
    last := ?_ }
  · rw [hline (hstep (k := 2) hs (by omega) rfl)]
    cases s.passed <;> rfl
  · have hmapped : ((lines summary steps).map String.toList).length = 5 + 5 * steps.length := by
      rw [List.length_map, hlen]
    rw [List.getElem?_append_right (by omega), hmapped, Nat.sub_self]
    rfl

/-- A report of a run-file under a root of one line, be it text or not, is read back line by line:
its pieces are those of its header and five for each step. Reports that agree tell the same. -/
theorem render_reads_back {steps : List Step} (h : Reached steps) (summary : Summary) :
    Pieces summary steps (Text.splitAt '\n' (render summary steps).toList) ∧
    ∀ (steps' : List Step) (summary' : Summary), Reached steps' →
      render summary steps = render summary' steps' →
      (Calendar.reportTime summary.startedAt = Calendar.reportTime summary'.startedAt ∧
        summary.counts = summary'.counts) ∧
      steps.map told = steps'.map told := by
  refine ⟨?_, fun steps' summary' h' hrender => ?_⟩
  · rw [splitAt_render h.oneLine]
    exact pieces_of_lines summary steps
  · have hpieces := splitAt_render h'.oneLine summary'
    rw [← hrender, splitAt_render h.oneLine] at hpieces
    have hlines : lines summary steps = lines summary' steps' :=
      List.map_injective_iff.mpr (fun _ _ => String.toList_injective)
        (List.append_cancel_right hpieces)
    have hlen := (length_headerLines summary).trans (length_headerLines summary').symm
    obtain ⟨hheader, hsteps⟩ := List.append_inj hlines hlen
    exact ⟨headerLines_inj hheader, flatMap_stepLines_inj hsteps⟩

/-- A step with a configuration file, as it is compiled and behind a run that does not find it. -/
theorem render_reads_back_config :
    let files : FileTree := ⟨[(["w", "a.run"], .file (.text "1__A__I__f,c.xml\n")),
      (["w", "c.xml"], .file (.text ""))], ["w"]⟩
    let step : Step := ⟨"1__A__I__f", "A", "I", "f", some (.path ⟨"c.xml"⟩), 0, false, .zero, 0⟩
    let script : Stub.Script := { ids := [("1__A__I__f", -1)] }
    let summary : Summary := .start ⟨0, 0, 0⟩ 1
    let r := (Run.into script.world {} ⟨5⟩ [step] summary script.begin).value
    Session.compile files {} ⟨"a.run"⟩ = .ok [step] ∧ Reached [step] ∧
      Pieces summary [step] (Text.splitAt '\n' (render summary [step]).toList) ∧
      Reached r.steps ∧ render r.summary [step] = render r.summary r.steps ∧
      [step].map told = r.steps.map told := by
  intro files step script summary r
  have hrun : files.file? ⟨"a.run"⟩ = some (["w", "a.run"], .text "1__A__I__f,c.xml\n") :=
    FileTree.file?_of_leads ["w"] ["a.run"] (by decide +kernel) (.file (by decide +kernel) rfl) rfl
  have hconfig : files.file? ⟨"c.xml"⟩ = some (["w", "c.xml"], .text "") :=
    FileTree.file?_of_leads ["w"] ["c.xml"] (by decide +kernel) (.file (by decide +kernel) rfl) rfl
  have hfind : ∀ root name, Step.findConfig files root name "c.xml" = some ⟨"c.xml"⟩ := by
    intro root name
    have hfile : files.isFile ⟨"c.xml"⟩ = true := by rw [FileTree.isFile, hconfig]; rfl
    rw [Step.findConfig, if_neg (by decide), List.find?_cons_of_pos hfile]
  let i : RunFile.Instruction := ⟨"1__A__I__f,c.xml", ⟨"a.run"⟩, 1, ⟨0, 16⟩,
    ⟨"a.run", "1__A__I__f,c.xml\n"⟩⟩
  let t : RunFile.Forest := .leaf ⟨i.text, 1, ⟨0, 16⟩⟩ (by decide) .empty
  have hstep : Step.compileAll files ⟨"mufat_resources/sdkruntime"⟩ [i] = .ok [step] := by
    have hfields : Step.Fields.ofText i.text = ⟨"1__A__I__f".toList, "c.xml".toList, []⟩ := by
      decide +kernel
    have hparts : Text.splitDouble '_' "1__A__I__f".toList = [['1'], ['A'], ['I'], ['f']] := by
      decide +kernel
    rw [Step.compileAll, List.mapM_cons, Step.compile, hfields]
    dsimp only
    rw [hparts]
    dsimp only
    rw [String.ofList_toList, String.ofList_toList, hfind]
    rfl
  have hreading : ∀ read, RunFile.Reading files read
      (RunFile.fileScope ⟨"a.run"⟩ "1__A__I__f,c.xml\n") t _ := fun read =>
    .of_plain (by decide +kernel) (by decide +kernel) (by decide +kernel) (by decide +kernel)
      (by decide +kernel)
  have hdenote : t.denote (RunFile.stepLine (RunFile.fileScope ⟨"a.run"⟩ "1__A__I__f,c.xml\n"))
      RunFile.SourceLine.copies = [i] := by decide +kernel
  have hcompile : Session.compile files {} ⟨"a.run"⟩ = .ok [step] :=
    Session.compile_of_plain ⟨_, _, hrun, rfl⟩ hreading (hdenote ▸ hstep)
  have hreached : Reached [step] := .compiled (by decide +kernel) hcompile
  have hleft : Reached r.steps := hreached.run script.world {} ⟨5⟩ summary script.begin
  have hrender : render r.summary [step] = render r.summary r.steps := by decide +kernel
  exact ⟨hcompile, hreached, (render_reads_back hreached summary).1, hleft, hrender,
    ((render_reads_back hreached r.summary).2 r.steps r.summary hleft hrender).2⟩

end Report

end StepRunner
