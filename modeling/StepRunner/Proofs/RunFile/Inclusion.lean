import Mathlib.Logic.Relation
import StepRunner.Proofs.FileTree.Canonical
import StepRunner.Proofs.RunFile.Flattening
import StepRunner.Proofs.RunFile.Traversal

/-!
# What a directive stands for

An accepted file is the tree of its own lines, in which a directive stands for the instructions of
the file it names (`Reading`). These do not depend on the files that are being read, as long as none
of them is reached (`readFile_iff_standalone`).
-/

namespace StepRunner.RunFile

/-! ### Inclusion -/

/-- A directive in `a` names `b`. -/
def Includes (files : FileTree) (a b : Path) : Prop :=
  ∃ text, HasText files a text ∧ ∃ l ∈ sourceLines (fileScope a text).source.text,
    ∃ target, l.meaning = .inclusion target ∧ Names files (fileScope a text) target b

/-- `b` is `a`, or it is included by it, be it through other files. -/
def Reaches (files : FileTree) : Path → Path → Prop := Relation.ReflTransGen (Includes files)

theorem SourceLine.not_mark_of_inclusion {l : SourceLine} {target : String}
    (h : l.meaning = .inclusion target) : ¬ l.Opens ∧ ¬ l.Closes := by
  constructor
  · intro ho
    rw [meaning_of_opens ho] at h
    cases h
  · intro hc
    rw [meaning_of_closes hc] at h
    cases h

/-! ### Accepted texts -/

/-- What an accepted text says: its lines form the tree `t`, and the leaves of the tree stand for
the instructions `f`, those of a directive being what `read` gives for the file it names. -/
structure Reading (files : FileTree) (read : Path → Except ParseError (List Instruction))
    (s : Scope) (t : Forest) (f : SourceLine → List Instruction) : Prop where
  balanced : s.source.text.toList.count '(' = s.source.text.toList.count ')'
  /-- Every block opens and closes with lines of this text. -/
  lines : t.lines = sourceLines s.source.text
  plain : ∀ l ∈ t.leaves, ¬ l.IsDirective →
    (l.IsStep → l.text.toList.count ',' + 1 ≤ 3) ∧ f l = stepLine s l
  directive : ∀ l ∈ t.leaves, ∀ target, l.meaning = .inclusion target →
    ∃ q, Names files s target q ∧ read q = .ok (f l)
  /-- What a block is repeated to is compared with the limit, unless it is given once. -/
  blocks : ∀ b ∈ t.blocks, b.closing.Counted ∧
    (b.closing.copies ≠ 1 → b.body.denote f SourceLine.copies ≠ [] →
      b.closing.copies * (b.body.denote f SourceLine.copies).length ≤ maxExpansion)

section

variable {files : FileTree} {read read' : Path → Except ParseError (List Instruction)}

theorem included_eq_ok_iff {s : Scope} {l : SourceLine} {target : String}
    {is : List Instruction} :
    included files read s l target = .ok is ↔ ∃ q, Names files s target q ∧ read q = .ok is := by
  unfold included
  cases hq : resolveInclude files s target with
  | none =>
    constructor
    · intro h; cases h
    · rintro ⟨q, hnames, -⟩
      rw [resolveInclude_eq_some_iff.mpr hnames] at hq
      cases hq
  | some q =>
    have hnames := resolveInclude_eq_some_iff.mp hq
    constructor
    · exact fun h => ⟨q, hnames, h⟩
    · rintro ⟨q', hnames', h⟩
      rw [resolveInclude_eq_some_iff.mpr hnames'] at hq
      cases hq
      exact h

theorem ofLine_of_inclusion {s : Scope}
    {inclusion : SourceLine → String → Except ParseError (List Instruction)} {l : SourceLine}
    {target : String} (h : l.meaning = .inclusion target) :
    ofLine s inclusion l = inclusion l target := by
  rw [ofLine, h]

/-- The leaves of a tree are read as they have to be. -/
theorem leaves_read_iff {s : Scope} {t : Forest} {f : SourceLine → List Instruction} :
    (∀ l ∈ t.leaves, ofLine s (included files read s) l = .ok (f l)) ↔
      (∀ l ∈ t.leaves, ¬ l.IsDirective →
        (l.IsStep → l.text.toList.count ',' + 1 ≤ 3) ∧ f l = stepLine s l) ∧
      ∀ l ∈ t.leaves, ∀ target, l.meaning = .inclusion target →
        ∃ q, Names files s target q ∧ read q = .ok (f l) := by
  constructor
  · intro h
    refine ⟨fun l hl hd => ?_, fun l hl target hm => ?_⟩
    · exact (ofLine_eq_ok_iff (Forest.not_mark_of_mem_leaves hl) hd).mp (h l hl)
    · have hread := h l hl
      rw [ofLine_of_inclusion hm, included_eq_ok_iff] at hread
      exact hread
  · rintro ⟨hplain, hdirective⟩ l hl
    by_cases hd : l.IsDirective
    · obtain ⟨target, hm⟩ := hd
      rw [ofLine_of_inclusion hm, included_eq_ok_iff]
      exact hdirective l hl target hm
    · exact (ofLine_eq_ok_iff (Forest.not_mark_of_mem_leaves hl) hd).mpr (hplain l hl hd)

theorem readText_eq_ok_iff {p : Path} {text : String} {is : List Instruction} :
    readText files read p text = .ok is ↔ ∃ t f, Reading files read (fileScope p text) t f ∧
      is = t.denote f SourceLine.copies := by
  rw [readText_eq, bind_eq_ok_iff]
  constructor
  · rintro ⟨⟨⟩, hbalance, hflat⟩
    obtain ⟨t, ht⟩ := exists_forest_of_flatten hflat
    rw [← ht, flatten_lines] at hflat
    let s := fileScope p text
    let f : SourceLine → List Instruction := fun l =>
      (ofLine s (included files read s) l).toOption.getD []
    have hf : ∀ l ∈ t.leaves, ∀ here, ofLine s (included files read s) l = .ok here →
        here = f l := fun l _ here h => by
      simp only [f, h, Except.toOption, Option.getD_some]
    obtain ⟨hleaves, hblocks, his⟩ := (Forest.evaluate_eq_ok_iff hf).mp hflat
    obtain ⟨hplain, hdirective⟩ := leaves_read_iff.mp hleaves
    exact ⟨t, f, ⟨checkBalance_eq_ok_iff.mp hbalance, ht, hplain, hdirective, hblocks⟩, his⟩
  · rintro ⟨t, f, h, rfl⟩
    refine ⟨(), checkBalance_eq_ok_iff.mpr h.balanced, ?_⟩
    have hleaves := leaves_read_iff.mpr ⟨h.plain, h.directive⟩
    rw [← h.lines, flatten_lines, Forest.evaluate_eq_ok_iff]
    · exact ⟨hleaves, h.blocks, rfl⟩
    · intro l hl here hok
      rw [hleaves l hl] at hok
      cases hok
      rfl

theorem Reading.mem_leaves {s : Scope} {t : Forest} {f : SourceLine → List Instruction}
    (h : Reading files read s t f) {l : SourceLine} (hl : l ∈ sourceLines s.source.text)
    {target : String} (hm : l.meaning = .inclusion target) : l ∈ t.leaves := by
  obtain ⟨hopens, hcloses⟩ := SourceLine.not_mark_of_inclusion hm
  rw [← h.lines] at hl
  rcases Forest.mem_leaves_or_blocks hl with ho | hleaf | ⟨b, hb, rfl⟩
  · exact absurd ho hopens
  · exact hleaf
  · exact absurd (Forest.closing_of_mem_blocks hb).1 hcloses

/-- A text says the same if the files it includes do. -/
theorem Reading.imp {p : Path} {text : String} {t : Forest} {f : SourceLine → List Instruction}
    (h : Reading files read (fileScope p text) t f) (htext : HasText files p text)
    (hread : ∀ q is, Includes files p q → read q = .ok is → read' q = .ok is) :
    Reading files read' (fileScope p text) t f :=
  { h with
    directive := fun l hl target hm => by
      obtain ⟨q, hnames, hq⟩ := h.directive l hl target hm
      have hline : l ∈ sourceLines (fileScope p text).source.text :=
        h.lines ▸ Forest.mem_lines_of_mem_leaves hl
      exact ⟨q, hnames, hread q _ ⟨text, htext, l, hline, target, hm, hnames⟩ hq⟩ }

end

/-! ### Accepted files -/

variable {files : FileTree} {chain chain' : List Path} {p q : Path} {is : List Instruction}

theorem readFile_eq_ok_iff :
    readFile files chain p = .ok is ↔ ∃ text, HasText files p text ∧
      onChain chain (identity files p) = false ∧ ∃ t f,
        Reading files (readFile files (identity files p :: chain)) (fileScope p text) t f ∧
          is = t.denote f SourceLine.copies := by
  simp only [← readText_eq_ok_iff, readText_eq, readFile_eq, bind_eq_ok_iff]
  constructor
  · rintro ⟨f, henter, hscan⟩
    obtain ⟨text, htext, hc, hbalance, rfl⟩ := Frame.enter_eq_ok_iff.mp henter
    exact ⟨text, htext, hc, (), hbalance, by rw [flatten_eq_scan]; exact hscan⟩
  · rintro ⟨text, htext, hc, ⟨⟩, hbalance, hflat⟩
    rw [flatten_eq_scan] at hflat
    exact ⟨_, Frame.enter_eq_ok_iff.mpr ⟨text, htext, hc, hbalance, rfl⟩, hflat⟩

/-- What an accepted file includes was accepted in its place. -/
theorem readFile_of_includes (h : readFile files chain p = .ok is) (hpq : Includes files p q) :
    ∃ js, readFile files (identity files p :: chain) q = .ok js := by
  obtain ⟨text, htext, -, t, f, hreading, -⟩ := readFile_eq_ok_iff.mp h
  obtain ⟨text', htext', l, hl, target, hm, hnames⟩ := hpq
  obtain rfl := htext.unique htext'
  obtain ⟨q', hnames', hq⟩ := hreading.directive l (hreading.mem_leaves hl hm) target hm
  have hsame := resolveInclude_eq_some_iff.mpr hnames'
  rw [resolveInclude_eq_some_iff.mpr hnames] at hsame
  cases hsame
  exact ⟨_, hq⟩

theorem onChain_cons (a b : Path) (chain : List Path) :
    onChain (a :: chain) b = (a.alike b || onChain chain b) := rfl

/-- No file on the chain is reached from a file that is accepted. -/
theorem not_onChain_of_reaches (hpq : Reaches files p q) (h : readFile files chain p = .ok is) :
    onChain chain (identity files q) = false := by
  induction hpq using Relation.ReflTransGen.head_induction_on generalizing chain is with
  | refl =>
    obtain ⟨-, -, hc, -⟩ := readFile_eq_ok_iff.mp h
    exact hc
  | head hab _ ih =>
    obtain ⟨js, hjs⟩ := readFile_of_includes h hab
    have hc := ih hjs
    rw [onChain_cons, Bool.or_eq_false_iff] at hc
    exact hc.2

/-- A file gives the same instructions on another chain, if that holds no file it reaches. -/
theorem readFile_of_chain (h : readFile files chain p = .ok is)
    (hfree : ∀ q, Reaches files p q → onChain chain' (identity files q) = false) :
    readFile files chain' p = .ok is := by
  induction hn : unvisited chain using Nat.strongRecOn generalizing chain chain' p is with
  | _ n ih =>
    obtain ⟨text, htext, hc, t, f, hreading, rfl⟩ := readFile_eq_ok_iff.mp h
    refine readFile_eq_ok_iff.mpr ⟨text, htext, hfree p .refl, t, f, ?_, rfl⟩
    refine hreading.imp htext fun q js hpq hq => ?_
    have hless : unvisited (identity files p :: chain) < n := by
      obtain ⟨place, content, hfile, -⟩ := htext
      exact hn ▸ unvisited_cons_lt (fits_identity hfile) hc
    refine ih _ hless hq (fun q' hq' => ?_) rfl
    have hnot := not_onChain_of_reaches hq' hq
    rw [onChain_cons, Bool.or_eq_false_iff] at hnot ⊢
    exact ⟨hnot.1, hfree q' (.head hpq hq')⟩

theorem identity_of_file? {x : Place} {c : Content}
    (hshort : ∀ place ∈ files.cwd.inits ++ files.entries.map Prod.fst,
      FileTree.fits (FileTree.pathOf place))
    (h : files.file? p = some (x, c)) : identity files p = FileTree.pathOf x := by
  rw [identity, FileTree.canonical_of_file? hshort h]

/-- On any chain a file is read as it is on its own, unless it reaches a file of the chain. A
directive in an accepted file stands for all that the file it names gives on its own, and the blocks
around it repeat that as a whole. -/
theorem readFile_iff_standalone (files : FileTree) (chain : List Path) (p : Path) :
    (∀ is, readFile files chain p = .ok is ↔ parseFile files p = .ok is ∧
      ∀ q, Reaches files p q → onChain chain (identity files q) = false) ∧
    ∀ is, parseFile files p = .ok is → ∃ text t f, HasText files p text ∧
      Reading files (parseFile files) (fileScope p text) t f ∧
        is = t.denote f SourceLine.copies := by
  have hstandalone : ∀ {chain q js}, readFile files chain q = .ok js →
      parseFile files q = .ok js := fun h => readFile_of_chain h fun _ _ => rfl
  constructor
  · intro is
    constructor
    · exact fun h => ⟨hstandalone h, fun q hq => not_onChain_of_reaches hq h⟩
    · rintro ⟨h, hfree⟩
      exact readFile_of_chain h hfree
  · intro is h
    obtain ⟨text, htext, -, t, f, hreading, his⟩ := readFile_eq_ok_iff.mp h
    exact ⟨text, t, f, htext, hreading.imp htext fun q js _ hq => hstandalone hq, his⟩

/-- A directive in a block that is repeated. -/
theorem readFile_repeated_include :
    let files : FileTree :=
      ⟨[(["w", "a.run"], .file (.text "(\n;INCLUDE::b.run\n)*2\nX\n")),
        (["w", "b.run"], .file (.text "B\n"))], ["w"]⟩
    ∃ is, is.map (·.text) = ["B", "B", "X"] ∧ parseFile files ⟨"a.run"⟩ = .ok is ∧
      ∃ text t f, HasText files ⟨"a.run"⟩ text ∧
        Reading files (parseFile files) (fileScope ⟨"a.run"⟩ text) t f ∧
          is = t.denote f SourceLine.copies := by
  intro files
  have ha : files.file? ⟨"a.run"⟩ =
      some (["w", "a.run"], .text "(\n;INCLUDE::b.run\n)*2\nX\n") :=
    FileTree.file?_of_leads ["w"] ["a.run"] (by decide +kernel) (.file (by decide +kernel) rfl) rfl
  have hb : files.file? ⟨"b.run"⟩ = some (["w", "b.run"], .text "B\n") :=
    FileTree.file?_of_leads ["w"] ["b.run"] (by decide +kernel) (.file (by decide +kernel) rfl) rfl
  have hshort : ∀ place ∈ files.cwd.inits ++ files.entries.map Prod.fst,
      FileTree.fits (FileTree.pathOf place) := by decide +kernel
  let sa := fileScope ⟨"a.run"⟩ "(\n;INCLUDE::b.run\n)*2\nX\n"
  let sb := fileScope ⟨"b.run"⟩ "B\n"
  let b : SourceLine := ⟨"B", 1, ⟨0, 1⟩⟩
  let directive : SourceLine := ⟨";INCLUDE::b.run", 2, ⟨2, 17⟩⟩
  let x : SourceLine := ⟨"X", 4, ⟨22, 23⟩⟩
  let ta : Forest :=
    .block ⟨"(", 1, ⟨0, 1⟩⟩ (by decide) (.leaf directive (by decide) .empty)
      ⟨")*2", 3, ⟨18, 21⟩⟩ (by decide) (.leaf x (by decide) .empty)
  let f : SourceLine → List Instruction :=
    fun l => if l = directive then stepLine sb b else stepLine sa l
  have hreadb : readFile files [identity files ⟨"a.run"⟩] ⟨"b.run"⟩ = .ok (stepLine sb b) := by
    refine readFile_eq_ok_iff.mpr ⟨_, ⟨_, _, hb, rfl⟩, ?_, .leaf b (by decide) .empty, stepLine sb,
      ⟨by decide +kernel, by decide +kernel, by decide +kernel, fun l hl target hm => ?_,
        by decide +kernel⟩, by decide +kernel⟩
    · rw [identity_of_file? hshort ha, identity_of_file? hshort hb]
      rfl
    · obtain rfl := List.mem_singleton.mp hl
      exact absurd ⟨target, hm⟩ (by decide : ¬ b.IsDirective)
  have hreada : parseFile files ⟨"a.run"⟩ = .ok (ta.denote f SourceLine.copies) := by
    refine readFile_eq_ok_iff.mpr ⟨_, ⟨_, _, ha, rfl⟩, rfl, ta, f,
      ⟨by decide +kernel, by decide +kernel, by decide +kernel, fun l hl target hm => ?_,
        by decide +kernel⟩, rfl⟩
    rw [show ta.leaves = [directive, x] by decide +kernel, List.mem_pair] at hl
    rcases hl with rfl | rfl
    · rw [show directive.meaning = .inclusion "b.run" by decide +kernel] at hm
      cases hm
      exact ⟨⟨"b.run"⟩, ⟨by rw [FileTree.isFile, hb]; rfl, .inl rfl⟩, hreadb⟩
    · exact absurd ⟨target, hm⟩ (by decide : ¬ x.IsDirective)
  exact ⟨_, by decide +kernel, hreada, (readFile_iff_standalone files [] ⟨"a.run"⟩).2 _ hreada⟩

end StepRunner.RunFile
