import StepRunner.Proofs.RunFile.Location
import StepRunner.Proofs.Text.Trim

/-!
# How blocks end

`Closing` is the written form of a line that ends a block: the mark alone, or the mark, a `*` and how
often the block is to be given. In an accepted text every block ends in this form and is given as
often as it says (`blocks_end_as_written`), unless something else than a `*` stands behind the mark:
that is not looked at, and a count in it is lost (`count_without_star_is_lost`).
-/

namespace StepRunner

namespace RunFile

/-! ### The written form -/

/-- A closing line as it is to be written, and how often its block is then given. -/
inductive Closing : List Char → Nat → Prop
  | once {blanks : List Char} : (∀ c ∈ blanks, Text.isBlank c) → Closing (')' :: blanks) 1
  /-- A positive number of 64 bits; it may have a sign. -/
  | times {blanks gap sign digits : List Char} : (∀ c ∈ blanks, Text.isBlank c) →
      (∀ c ∈ gap, Text.isBlank c) → (sign = [] ∨ sign = ['+']) → digits ≠ [] →
      (∀ c ∈ digits, c.isDigit) → 1 ≤ Text.digitsValue 0 digits →
      Text.digitsValue 0 digits < UInt64.size →
      Closing (')' :: (blanks ++ '*' :: (gap ++ (sign ++ digits)))) (Text.digitsValue 0 digits)

/-- Behind the mark and blanks stands something else than a `*`. -/
def Unread (cs : List Char) : Prop :=
  ∃ c, (Text.trimStart cs.tail).head? = some c ∧ c ≠ '*'

theorem Closing.chars {cs : List Char} {n : Nat} (h : Closing cs n) :
    ∀ c ∈ cs, Text.isBlank c ∨ c ∈ [')', '*', '+'] ∨ c.isDigit := by
  cases h with
  | once hblanks =>
    rw [List.forall_mem_cons]
    exact ⟨.inr (.inl (by decide)), fun c hc => .inl (hblanks c hc)⟩
  | times hblanks hgap hsign _ hdigits =>
    simp only [List.forall_mem_cons, List.forall_mem_append]
    refine ⟨.inr (.inl (by decide)), fun c hc => .inl (hblanks c hc), .inr (.inl (by decide)),
      fun c hc => .inl (hgap c hc), fun c hc => ?_, fun c hc => .inr (.inr (hdigits c hc))⟩
    rcases hsign with rfl | rfl
    · cases hc
    · rw [List.mem_singleton.mp hc]
      exact .inr (.inl (by decide))

theorem Closing.not_unread {cs : List Char} {n : Nat} (h : Closing cs n) : ¬ Unread cs := by
  rintro ⟨c, hc, hstar⟩
  unfold Text.trimStart at hc
  cases h with
  | once hblanks =>
    rw [List.tail_cons, List.dropWhile_eq_nil_iff.mpr hblanks] at hc
    cases hc
  | times hblanks =>
    rw [List.tail_cons, List.dropWhile_append_of_pos hblanks,
      List.dropWhile_cons_of_neg (by decide), List.head?_cons] at hc
    exact hstar (Option.some.inj hc).symm

namespace SourceLine

variable {l : SourceLine}

/-- Behind the mark and blanks stands nothing, a `*` or something else; only a `*` counts. -/
theorem suffix?_cases (h : l.Closes) : ∃ blanks rest, (∀ c ∈ blanks, Text.isBlank c) ∧
    l.text.toList = ')' :: (blanks ++ rest) ∧
      (rest = [] ∧ l.suffix? = none ∨ Unread l.text.toList ∧ l.suffix? = none ∨
        ∃ r, rest = '*' :: r ∧ l.suffix? = some (Text.trim r)) := by
  obtain ⟨r, hr⟩ := List.head?_eq_some_iff.mp h
  obtain ⟨blanks, hblanks, heq⟩ := Text.exists_blanks_trimStart r
  refine ⟨blanks, Text.trimStart r, hblanks, heq ▸ hr, ?_⟩
  rw [suffix?, Unread, hr, List.tail_cons, Line.blockCount?]
  split
  · next q hq => exact .inr (.inr ⟨q, hq, rfl⟩)
  · next hno =>
    cases hrest : Text.trimStart r with
    | nil => exact .inl ⟨rfl, rfl⟩
    | cons c q =>
      refine .inr (.inl ⟨⟨c, rfl, ?_⟩, rfl⟩)
      rintro rfl
      exact hno q hrest

/-- A closing line that is accepted has the written form, or it is not read behind the mark. -/
theorem closing_or_unread (hcloses : l.Closes) (hcounted : l.Counted)
    (htrimmed : ∀ c, l.text.toList.getLast? = some c → Text.isBlank c = false) :
    Closing l.text.toList l.copies ∨ Unread l.text.toList ∧ l.copies = 1 := by
  obtain ⟨blanks, rest, hblanks, hline, hrest⟩ := suffix?_cases hcloses
  unfold copies
  rcases hrest with ⟨rfl, hnone⟩ | ⟨hunread, hnone⟩ | ⟨r, rfl, hsome⟩
  · rw [hnone, hline, List.append_nil]
    exact .inl (.once hblanks)
  · rw [hnone]
    exact .inr ⟨hunread, rfl⟩
  · left
    obtain ⟨hnumeral, hpos, hlt⟩ := hcounted _ hsome
    obtain ⟨gap, hgap, hr⟩ := Text.exists_blanks_trimStart r
    have hfront : l.text.toList = (')' :: (blanks ++ '*' :: gap)) ++ Text.trimStart r := by
      rw [hline, List.cons_append, List.append_assoc, List.cons_append, ← hr]
    -- The line ends where the numeral does.
    have hends : Text.trim r = Text.trimStart r := Text.trimEnd_eq_self fun c hc =>
      htrimmed c (by rw [hfront, List.getLast?_append, hc, Option.some_or])
    rw [hends] at hnumeral hpos hlt
    obtain ⟨sign, digits, hdigits, hsign, hne, hall, hvalue⟩ := hnumeral.exists_sign
    rw [hsome]
    dsimp only
    rw [hends, hvalue, hfront, hdigits, List.cons_append, List.append_assoc, List.cons_append]
    rw [hvalue] at hpos hlt
    exact .times hblanks hgap hsign hne hall hpos hlt

end SourceLine

/-! ### Accepted texts -/

/-- How the blocks of a text end. -/
def Forest.EndsAsWritten (t : Forest) (times : SourceLine → Nat) : Prop :=
  ∀ b ∈ t.blocks, Closing b.closing.text.toList (times b.closing) ∨
    Unread b.closing.text.toList ∧ times b.closing = 1

theorem Reading.endsAsWritten {files : FileTree}
    {read : Path → Except ParseError (List Instruction)} {s : Scope} {t : Forest}
    {f : SourceLine → List Instruction} (h : Reading files read s t f) :
    t.EndsAsWritten SourceLine.copies := by
  intro b hb
  obtain ⟨hcloses, hline⟩ := Forest.closing_of_mem_blocks hb
  rw [h.lines] at hline
  have hshows := (shows_of_mem_sourceLines hline).1
  exact SourceLine.closing_or_unread hcloses (h.blocks b hb).1 hshows.not_isBlank_getLast

/-- In every file that is read and in every text, a block is given as often as its closing line
says; that has the written form unless it is not read behind the mark. A text with a closing line
that is read and does not have the form is refused. -/
theorem blocks_end_as_written (files : FileTree) (p : Path) :
    (∀ chain is, readFile files chain p = .ok is → ∃ text t f times, HasText files p text ∧
      Reading files (readFile files (identity files p :: chain)) (fileScope p text) t f ∧
        is = t.denote f times ∧ t.EndsAsWritten times) ∧
    (∀ text is, parseText files p text = .ok is → ∃ t f times,
      Reading files (readFile files [identity files p]) (fileScope p text) t f ∧
        is = t.denote f times ∧ t.EndsAsWritten times) ∧
    ∀ text t, Forest.lines t = sourceLines (dropByteOrderMark text) → ∀ b ∈ t.blocks,
      ¬ Unread b.closing.text.toList → (∀ n, ¬ Closing b.closing.text.toList n) →
        ∃ e, parseText files p text = .error e := by
  refine ⟨fun chain is h => ?_, fun text is h => ?_, fun text t ht b hb hread hform => ?_⟩
  · obtain ⟨text, htext, -, t, f, hreading, his⟩ := readFile_eq_ok_iff.mp h
    exact ⟨text, t, f, _, htext, hreading, his, hreading.endsAsWritten⟩
  · obtain ⟨t, f, hreading, his⟩ := readText_eq_ok_iff.mp h
    exact ⟨t, f, _, hreading, his, hreading.endsAsWritten⟩
  · cases h : parseText files p text with
    | error e => exact ⟨e, rfl⟩
    | ok is =>
      obtain ⟨u, f, hreading, -⟩ := readText_eq_ok_iff.mp h
      obtain rfl := Forest.lines_inj (hreading.lines.trans ht.symm)
      rcases hreading.endsAsWritten b hb with hclosing | ⟨hunread, -⟩
      · exact absurd hclosing (hform _)
      · exact absurd hunread hread

/-- A file whose block is given twice, a text whose block is given once, and a text whose count is
no number. -/
theorem blocks_end_as_written_or_not :
    let files : FileTree := ⟨[(["w", "a.run"], .file (.text "(\nA\n) * +2\n"))], ["w"]⟩
    (∃ is, parseFile files ⟨"a.run"⟩ = .ok is ∧ is.length = 2 ∧
      ∃ text t f times, HasText files ⟨"a.run"⟩ text ∧
        Reading files (readFile files [identity files ⟨"a.run"⟩]) (fileScope ⟨"a.run"⟩ text) t f ∧
          is = t.denote f times ∧ t.EndsAsWritten times) ∧
    (∃ is, parseText files ⟨"b.run"⟩ "(\nB\n)\n" = .ok is ∧ is.length = 1 ∧ ∃ t f times,
      Reading files (readFile files [identity files ⟨"b.run"⟩])
        (fileScope ⟨"b.run"⟩ "(\nB\n)\n") t f ∧
          is = t.denote f times ∧ t.EndsAsWritten times) ∧
    ∃ e, parseText files ⟨"b.run"⟩ "(\nC\n)*x\n" = .error e := by
  intro files
  have ha : files.file? ⟨"a.run"⟩ = some (["w", "a.run"], .text "(\nA\n) * +2\n") :=
    FileTree.file?_of_leads ["w"] ["a.run"] (by decide +kernel) (.file (by decide +kernel) rfl) rfl
  let opening : SourceLine := ⟨"(", 1, ⟨0, 1⟩⟩
  let ta : Forest := .block opening (by decide) (.leaf ⟨"A", 2, ⟨2, 3⟩⟩ (by decide) .empty)
    ⟨") * +2", 3, ⟨4, 10⟩⟩ (by decide) .empty
  let tb : Forest := .block opening (by decide) (.leaf ⟨"B", 2, ⟨2, 3⟩⟩ (by decide) .empty)
    ⟨")", 3, ⟨4, 5⟩⟩ (by decide) .empty
  let bc : Forest.Block := ⟨.leaf ⟨"C", 2, ⟨2, 3⟩⟩ (by decide) .empty, ⟨")*x", 3, ⟨4, 7⟩⟩⟩
  let tc : Forest := .block opening (by decide) bc.body bc.closing (by decide) .empty
  obtain ⟨hfile, -, -⟩ := blocks_end_as_written files ⟨"a.run"⟩
  obtain ⟨-, htext, hrefused⟩ := blocks_end_as_written files ⟨"b.run"⟩
  have hparsea : parseFile files ⟨"a.run"⟩ = .ok (ta.denote (stepLine _) SourceLine.copies) :=
    readFile_eq_ok_iff.mpr ⟨_, ⟨_, _, ha, rfl⟩, rfl, ta, _, .of_plain (by decide +kernel)
      (by decide +kernel) (by decide +kernel) (by decide +kernel) (by decide +kernel), rfl⟩
  have hparseb : parseText files ⟨"b.run"⟩ "(\nB\n)\n" =
      .ok (tb.denote (stepLine _) SourceLine.copies) :=
    readText_eq_ok_iff.mpr ⟨tb, _, .of_plain (by decide +kernel) (by decide +kernel)
      (by decide +kernel) (by decide +kernel) (by decide +kernel), rfl⟩
  refine ⟨⟨_, hparsea, by decide +kernel, hfile [] _ hparsea⟩,
    ⟨_, hparseb, by decide +kernel, htext _ _ hparseb⟩,
    hrefused _ tc (by decide +kernel) bc List.mem_cons_self ?_ fun n hclosing => ?_⟩
  · rintro ⟨c, hc, hstar⟩
    have hmark : (Text.trimStart bc.closing.text.toList.tail).head? = some '*' := by decide
    exact hstar (Option.some.inj (hc.symm.trans hmark))
  · have hchar := hclosing.chars 'x' (by decide)
    revert hchar
    decide

/-- Two closing lines in which a count stands and no `*` behind the mark: both are accepted, and
their blocks are given once. -/
theorem count_without_star_is_lost :
    let text := "(\nA\n)3\n(\nB\n)x*3\n"
    ∃ is, parseText ⟨[], []⟩ ⟨"a.run"⟩ text = .ok is ∧ is.map (·.text) = ["A", "B"] ∧ ∃ t f,
      Reading ⟨[], []⟩ (readFile ⟨[], []⟩ [identity ⟨[], []⟩ ⟨"a.run"⟩]) (fileScope ⟨"a.run"⟩ text)
        t f ∧ is = t.denote f SourceLine.copies ∧
          t.blocks.map (·.closing.text) = [")3", ")x*3"] ∧
            ∀ b ∈ t.blocks, ∀ n, ¬ Closing b.closing.text.toList n := by
  intro text
  let t : Forest :=
    .block ⟨"(", 1, ⟨0, 1⟩⟩ (by decide) (.leaf ⟨"A", 2, ⟨2, 3⟩⟩ (by decide) .empty)
      ⟨")3", 3, ⟨4, 6⟩⟩ (by decide)
      (.block ⟨"(", 4, ⟨7, 8⟩⟩ (by decide) (.leaf ⟨"B", 5, ⟨9, 10⟩⟩ (by decide) .empty)
        ⟨")x*3", 6, ⟨11, 15⟩⟩ (by decide) .empty)
  have hreading : ∀ files read, Reading files read (fileScope ⟨"a.run"⟩ text) t
      (stepLine (fileScope ⟨"a.run"⟩ text)) := fun files read =>
    .of_plain (by decide +kernel) (by decide +kernel) (by decide +kernel) (by decide +kernel)
      (by decide +kernel)
  have hblocks : t.blocks.map (·.closing.text) = [")3", ")x*3"] := rfl
  refine ⟨_, readText_eq_ok_iff.mpr ⟨t, _, hreading .., rfl⟩, by decide +kernel, t, _, hreading ..,
    rfl, hblocks, fun b hb n h => h.not_unread ?_⟩
  have hb' : b.closing.text ∈ t.blocks.map (·.closing.text) := List.mem_map_of_mem hb
  rw [hblocks, List.mem_pair] at hb'
  rcases hb' with hb' | hb' <;> rw [hb']
  · exact ⟨'3', by decide, by decide⟩
  · exact ⟨'x', by decide, by decide⟩

end RunFile

end StepRunner
