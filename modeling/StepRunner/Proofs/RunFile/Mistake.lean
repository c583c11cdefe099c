import StepRunner.Proofs.RunFile.Location

/-!
# The first mistake

What is wrong with a text without directives, found by reading its lines once from left to right
with a stack of the lines that opened a block. Sizes of blocks are numbers here, no instruction is
ever made. The main lemma: a text with equally many marks is refused for the first mistake that is
met, and for no other reason (`scan_eq_error_iff`).
-/

namespace StepRunner.RunFile

/-! ### The stack -/

/-- A block that is not closed yet, and how many steps it holds so far. -/
structure Pending where
  opening : SourceLine
  size : Nat
  deriving DecidableEq, Repr

/-- Steps are added to the innermost block. -/
def grow (n : Nat) : List Pending → List Pending
  | [] => []
  | b :: outer => ⟨b.opening, b.size + n⟩ :: outer

/-- The stack behind a line with which nothing is wrong. The innermost block stands first. -/
def advance (stack : List Pending) (l : SourceLine) : List Pending :=
  if l.Opens then ⟨l, 0⟩ :: stack
  else if l.Closes then
    match stack with
    | [] => []
    | b :: outer => grow (l.copies * b.size) outer
  else if l.IsStep then grow 1 stack
  else stack

/-! ### Mistakes -/

/-- A line is wrong where these blocks are open. -/
inductive Mistake (s : Scope) (l : SourceLine) : List Pending → ParseError → Prop
  | strayClose : l.Closes → Mistake s l [] (.unexpectedClose (s.locate l))
  | extraFields {stack} : l.IsStep → 3 < l.text.toList.count ',' + 1 →
      Mistake s l stack (.tooManyFields (s.locate l))
  | badCount {b outer raw} : l.Closes → l.suffix? = some raw → ¬ l.Counted →
      Mistake s l (b :: outer) (.badCount (s.locate l) (String.ofList raw))
  | tooLong {b outer} : l.Closes → l.Counted → l.copies ≠ 1 → b.size ≠ 0 →
      1000000 < l.copies * b.size → Mistake s l (b :: outer) (.tooLong (s.locate l) l.copies)

/-- Reading on from a stack, the first mistake is met at the line `l`. At the end of the lines it
is the innermost block that is left open. -/
inductive FirstMistake (s : Scope) : List Pending → List SourceLine → SourceLine → ParseError → Prop
  | here {stack l r e} : Mistake s l stack e → FirstMistake s stack (l :: r) l e
  | later {stack m r l e} : (∀ e', ¬ Mistake s m stack e') → FirstMistake s (advance stack m) r l e →
      FirstMistake s stack (m :: r) l e
  | leftOpen {b outer} :
      FirstMistake s (b :: outer) [] b.opening (.neverClosed (s.locate b.opening))

theorem firstMistake_cons_iff {s : Scope} {stack : List Pending} {m l : SourceLine}
    {r : List SourceLine} {e : ParseError} :
    FirstMistake s stack (m :: r) l e ↔ (l = m ∧ Mistake s m stack e) ∨
      (∀ e', ¬ Mistake s m stack e') ∧ FirstMistake s (advance stack m) r l e := by
  constructor
  · intro h
    cases h with
    | here h => exact .inl ⟨rfl, h⟩
    | later hno h => exact .inr ⟨hno, h⟩
  · rintro (⟨rfl, h⟩ | ⟨hno, h⟩)
    · exact .here h
    · exact .later hno h

theorem FirstMistake.blame {s : Scope} {stack : List Pending} {ls : List SourceLine}
    {l : SourceLine} {e : ParseError} (h : FirstMistake s stack ls l e) :
    e.blame? = some (s.locate l) := by
  induction h with
  | here h => cases h <;> rfl
  | later _ _ ih => exact ih
  | leftOpen => rfl

/-! ### Errors of closing lines -/

theorem blockCount_eq_error_iff {loc : Location} {l : SourceLine} {e : ParseError} :
    blockCount loc (l.suffix?.map String.ofList) = .error e ↔
      ¬ l.Counted ∧ ∃ raw, l.suffix? = some raw ∧ e = .badCount loc (String.ofList raw) := by
  by_cases hc : l.Counted
  · rw [blockCount_eq_ok_iff.mpr ⟨hc, rfl⟩]
    exact ⟨fun h => (nomatch h), fun h => absurd hc h.1⟩
  · cases hraw : l.suffix? with
    | none => exact absurd (fun raw h => by rw [hraw] at h; cases h) hc
    | some raw =>
      have hno : ∀ n, blockCount loc (l.suffix?.map String.ofList) ≠ .ok n := fun n h =>
        hc (blockCount_eq_ok_iff.mp h).1
      rw [hraw] at hno
      simp only [Option.map_some, blockCount] at hno ⊢
      split
      · next n hn => exact absurd (by rw [hn]) (hno (n + 1))
      · simp only [Except.error.injEq, Option.some.injEq, exists_eq_left', hc, not_false_eq_true,
          true_and]
        exact eq_comm

theorem repeatBlock_eq_error_iff {loc : Location} {n : Nat} {body : List Instruction}
    {e : ParseError} :
    repeatBlock loc n body = .error e ↔
      n ≠ 1 ∧ body.length ≠ 0 ∧ maxExpansion < n * body.length ∧ e = .tooLong loc n := by
  unfold repeatBlock
  rw [Nat.mul_comm, ne_eq, ne_eq, List.length_eq_zero_iff]
  split
  · next h =>
    constructor
    · intro he; cases he
    · rintro ⟨hn, hb, -⟩
      exact (h.elim hn hb).elim
  · next h =>
    obtain ⟨hn, hb⟩ := not_or.mp h
    split
    · next hle =>
      constructor
      · intro he; cases he
      · rintro ⟨-, -, hgt, -⟩
        omega
    · next hgt =>
      constructor
      · rintro ⟨⟩
        exact ⟨hn, hb, by omega, rfl⟩
      · rintro ⟨-, -, -, rfl⟩
        rfl

/-! ### Taking up a line -/

/-- The stack of a scan: the blocks that are open and the sizes of what was given in them. -/
def stackOf (given : List Instruction) : List OpenBlock → List Pending
  | [] => []
  | b :: outer => ⟨b.opening, given.length⟩ :: stackOf b.before outer

def Progress.stack (pr : Progress) : List Pending := stackOf pr.given pr.blocks

theorem stackOf_append (given more : List Instruction) (blocks : List OpenBlock) :
    stackOf (given ++ more) blocks = grow more.length (stackOf given blocks) := by
  cases blocks with
  | nil => rfl
  | cons b outer => rw [stackOf, List.length_append, stackOf, grow]

theorem grow_zero (stack : List Pending) : grow 0 stack = stack := by
  cases stack <;> rfl

theorem stack_add (pr : Progress) (more : List Instruction) :
    (pr.add more).stack = grow more.length pr.stack :=
  stackOf_append pr.given more pr.blocks

section

variable {s : Scope} {inclusion : SourceLine → String → Except ParseError (List Instruction)}
  {l : SourceLine} {pr : Progress} {e : ParseError}

theorem SourceLine.Opens.not_closes (h : l.Opens) : ¬ l.Closes := fun hc => by
  rw [Opens, hc] at h
  cases h

theorem ofLine_eq_error_iff (hm : ¬ l.Opens ∧ ¬ l.Closes) (hd : ¬ l.IsDirective) :
    ofLine s inclusion l = .error e ↔
      l.IsStep ∧ 3 < l.text.toList.count ',' + 1 ∧ e = .tooManyFields (s.locate l) := by
  rcases l.kind with ho | hc | hn | hs
  · exact absurd ho hm.1
  · exact absurd hc hm.2
  · rw [(ofLine_eq_ok_iff hm hd).mpr ⟨fun hs => absurd hn hs.2.2, rfl⟩]
    constructor
    · intro h; cases h
    · intro h; exact absurd hn h.1.2.2
  · rw [ofLine, SourceLine.meaning_of_isStep hs]
    dsimp only
    rw [Line.fieldCount_eq, maxFields]
    split
    · next hgt =>
      constructor
      · rintro ⟨⟩; exact ⟨hs, hgt, rfl⟩
      · rintro ⟨-, -, rfl⟩; rfl
    · next hle =>
      constructor
      · intro h; cases h
      · intro h; exact absurd h.2.1 hle

theorem not_mistake_of_opens {stack : List Pending} (ho : l.Opens) : ¬ Mistake s l stack e := by
  intro h
  cases h with
  | strayClose hc | badCount hc | tooLong hc => exact ho.not_closes hc
  | extraFields hs => exact hs.1 ho

theorem mistake_iff_of_not_mark {stack : List Pending} (hm : ¬ l.Opens ∧ ¬ l.Closes) :
    Mistake s l stack e ↔
      l.IsStep ∧ 3 < l.text.toList.count ',' + 1 ∧ e = .tooManyFields (s.locate l) := by
  constructor
  · intro h
    cases h with
    | strayClose hc | badCount hc | tooLong hc => exact absurd hc hm.2
    | extraFields hs hfields => exact ⟨hs, hfields, rfl⟩
  · rintro ⟨hs, hfields, rfl⟩
    exact .extraFields hs hfields

theorem mistake_iff_of_closes (hc : l.Closes) {b : Pending} {outer : List Pending} :
    Mistake s l (b :: outer) e ↔
      (¬ l.Counted ∧ ∃ raw, l.suffix? = some raw ∧ e = .badCount (s.locate l) (String.ofList raw)) ∨
        l.Counted ∧ l.copies ≠ 1 ∧ b.size ≠ 0 ∧ maxExpansion < l.copies * b.size ∧
          e = .tooLong (s.locate l) l.copies := by
  constructor
  · intro h
    cases h with
    | extraFields hs => exact absurd hc hs.2.1
    | badCount _ hraw hcount => exact .inl ⟨hcount, _, hraw, rfl⟩
    | tooLong _ hcount hn hb hsize => exact .inr ⟨hcount, hn, hb, hsize, rfl⟩
  · rintro (⟨hcount, raw, hraw, rfl⟩ | ⟨hcount, hn, hb, hsize, rfl⟩)
    · exact .badCount hc hraw hcount
    · exact .tooLong hc hcount hn hb hsize

/-- A line is refused for the mistake in it. -/
theorem Progress.take_eq_error_iff (hd : ¬ l.IsDirective) :
    pr.take s inclusion l = .error e ↔ Mistake s l pr.stack e := by
  by_cases ho : l.Opens
  · rw [take_of_opens ho]
    exact ⟨fun h => (nomatch h), fun h => absurd h (not_mistake_of_opens ho)⟩
  by_cases hc : l.Closes
  · rw [take_of_closes hc]
    obtain ⟨blocks, given⟩ := pr
    cases blocks with
    | nil =>
      change _ ↔ Mistake s l [] e
      constructor
      · rintro ⟨⟩; exact .strayClose hc
      · intro h
        cases h with
        | strayClose => rfl
        | extraFields hs => exact absurd hc hs.2.1
    | cons b outer =>
      change _ ↔ Mistake s l (⟨b.opening, given.length⟩ :: stackOf b.before outer) e
      simp only [mistake_iff_of_closes hc, bind_eq_error_iff, blockCount_eq_error_iff,
        blockCount_eq_ok_iff, repeatBlock_eq_error_iff]
      constructor
      · rintro (h | ⟨n, ⟨hcount, rfl⟩, ⟨hn, hb, hsize, rfl⟩ | ⟨all, -, h⟩⟩)
        · exact .inl h
        · exact .inr ⟨hcount, hn, hb, hsize, rfl⟩
        · cases h
      · rintro (h | ⟨hcount, hn, hb, hsize, rfl⟩)
        · exact .inl h
        · exact .inr ⟨_, ⟨hcount, rfl⟩, .inl ⟨hn, hb, hsize, rfl⟩⟩
  · rw [take_of_not_mark ⟨ho, hc⟩, mistake_iff_of_not_mark ⟨ho, hc⟩,
      ← ofLine_eq_error_iff ⟨ho, hc⟩ hd, bind_eq_error_iff]
    exact or_iff_left fun ⟨_, _, h⟩ => (nomatch h)

theorem Progress.stack_of_take {pr' : Progress} (hd : ¬ l.IsDirective)
    (h : pr.take s inclusion l = .ok pr') : pr'.stack = advance pr.stack l := by
  unfold advance
  by_cases ho : l.Opens
  · rw [take_of_opens ho] at h
    cases h
    rw [if_pos ho]
    rfl
  by_cases hc : l.Closes
  · rw [take_of_closes hc] at h
    rw [if_neg ho, if_pos hc]
    obtain ⟨blocks, given⟩ := pr
    cases blocks with
    | nil => cases h
    | cons b outer =>
      obtain ⟨n, hn, h⟩ := bind_eq_ok_iff.mp h
      obtain ⟨all, hall, h⟩ := bind_eq_ok_iff.mp h
      obtain ⟨-, rfl⟩ := blockCount_eq_ok_iff.mp hn
      obtain ⟨-, rfl⟩ := repeatBlock_eq_ok_iff.mp hall
      cases h
      change stackOf (b.before ++ _) outer = grow (l.copies * given.length) (stackOf b.before outer)
      rw [stackOf_append, List.length_flatten, List.map_replicate, List.sum_replicate_nat]
  · rw [take_of_not_mark ⟨ho, hc⟩] at h
    rw [if_neg ho, if_neg hc]
    obtain ⟨here, hhere, h⟩ := bind_eq_ok_iff.mp h
    obtain ⟨-, rfl⟩ := (ofLine_eq_ok_iff ⟨ho, hc⟩ hd).mp hhere
    cases h
    rw [stack_add, stepLine]
    split
    · rfl
    · exact grow_zero _

/-! ### Scanning -/

theorem finish_eq_error_iff :
    pr.finish s = .error e ↔ ∃ l, FirstMistake s pr.stack [] l e := by
  obtain ⟨blocks, given⟩ := pr
  cases blocks with
  | nil => exact ⟨fun h => (nomatch h), fun ⟨_, h⟩ => (nomatch h)⟩
  | cons b outer =>
    constructor
    · rintro ⟨⟩; exact ⟨_, .leftOpen⟩
    · rintro ⟨_, h⟩
      cases h
      rfl

/-- Lines are refused for the first mistake. -/
theorem scan_eq_error_iff {ls : List SourceLine} (hd : ∀ l ∈ ls, ¬ l.IsDirective) :
    scan s inclusion pr ls = .error e ↔ ∃ l, FirstMistake s pr.stack ls l e := by
  induction ls generalizing pr with
  | nil => exact finish_eq_error_iff
  | cons m r ih =>
    rw [List.forall_mem_cons] at hd
    rw [scan, bind_eq_error_iff, Progress.take_eq_error_iff hd.1]
    simp only [firstMistake_cons_iff]
    constructor
    · rintro (h | ⟨pr', htake, h⟩)
      · exact ⟨m, .inl ⟨rfl, h⟩⟩
      · rw [ih hd.2, Progress.stack_of_take hd.1 htake] at h
        obtain ⟨l, h⟩ := h
        refine ⟨l, .inr ⟨fun e' he' => ?_, h⟩⟩
        rw [← Progress.take_eq_error_iff hd.1, htake] at he'
        cases he'
    · rintro ⟨l, ⟨-, h⟩ | ⟨hno, h⟩⟩
      · exact .inl h
      · cases htake : pr.take s inclusion m with
        | error e' => exact absurd ((Progress.take_eq_error_iff hd.1).mp htake) (hno e')
        | ok pr' =>
          rw [← Progress.stack_of_take hd.1 htake] at h
          exact .inr ⟨pr', rfl, (ih hd.2).mpr ⟨l, h⟩⟩

end

theorem checkBalance_eq_error_iff {source : Source} {e : ParseError} :
    checkBalance source = .error e ↔
      source.text.toList.count '(' ≠ source.text.toList.count ')' ∧
        e = .unbalanced source (source.text.toList.count '(') (source.text.toList.count ')') := by
  unfold checkBalance
  dsimp only
  split
  · next h => exact ⟨fun he => (nomatch he), fun he => absurd h he.1⟩
  · next h =>
    constructor
    · rintro ⟨⟩; exact ⟨h, rfl⟩
    · rintro ⟨-, rfl⟩; rfl

/-- A text without directives is refused for the number of its marks, without a line to blame; else
for the first mistake that is met when its lines are read from left to right, and at that line. -/
theorem parseText_error_iff_first_mistake (files : FileTree) (p : Path) (text : String)
    (hd : ∀ l ∈ sourceLines (dropByteOrderMark text), ¬ l.IsDirective) (e : ParseError) :
    let s := fileScope p text
    let opens := s.source.text.toList.count '('
    let closes := s.source.text.toList.count ')'
    (parseText files p text = .error e ↔
      opens ≠ closes ∧ e = .unbalanced s.source opens closes ∨
        opens = closes ∧ ∃ l, FirstMistake s [] (sourceLines s.source.text) l e) ∧
    (e = .unbalanced s.source opens closes → e.fault.span = none) ∧
    ∀ l, FirstMistake s [] (sourceLines s.source.text) l e →
      e.fault.span = some l.span ∧ e.fault.source = some s.source ∧
      (e = .unexpectedClose (s.locate l) →
        e.fault.message = "Unexpected ')' without a matching '('") ∧
      (e = .neverClosed (s.locate l) → e.fault.message = "Block is never closed") := by
  intro s opens closes
  refine ⟨?_, fun he => by rw [he]; rfl, fun l h => ?_⟩
  · have hscan : scan s (included files (readFile files [identity files p]) s) .start
        (sourceLines s.source.text) = .error e ↔
          ∃ l, FirstMistake s [] (sourceLines s.source.text) l e := scan_eq_error_iff hd
    rw [parseText, readText_eq, bind_eq_error_iff, checkBalance_eq_error_iff]
    refine or_congr Iff.rfl ⟨?_, ?_⟩
    · rintro ⟨⟨⟩, hbalance, h⟩
      rw [flatten_eq_scan] at h
      exact ⟨checkBalance_eq_ok_iff.mp hbalance, hscan.mp h⟩
    · rintro ⟨hbalance, h⟩
      refine ⟨(), checkBalance_eq_ok_iff.mpr hbalance, ?_⟩
      rw [flatten_eq_scan]
      exact hscan.mpr h
  · obtain ⟨hspan, hsource⟩ := e.fault_of_blame
    rw [h.blame] at hspan
    exact ⟨hspan, hsource _ h.blame, fun he => by rw [he]; rfl, fun he => by rw [he]; rfl⟩

/-- A count of zero, before a line with too many fields and in a block that is never closed. -/
theorem first_mistake_of_three :
    let text := "( )\n(\nA\n)*0\nB,,,\n"
    let s := fileScope ⟨"a.run"⟩ text
    let closing : SourceLine := ⟨")*0", 4, ⟨8, 11⟩⟩
    let e : ParseError := .badCount (s.locate closing) "0"
    (∀ l ∈ sourceLines (dropByteOrderMark text), ¬ l.IsDirective) ∧
      FirstMistake s [] (sourceLines s.source.text) closing e ∧
      parseText ⟨[], []⟩ ⟨"a.run"⟩ text = .error e ∧ e.fault.span = some ⟨8, 11⟩ := by
  intro text s closing e
  have hd : ∀ l ∈ sourceLines (dropByteOrderMark text), ¬ l.IsDirective := by decide +kernel
  let outer : SourceLine := ⟨"( )", 1, ⟨0, 3⟩⟩
  let inner : SourceLine := ⟨"(", 2, ⟨4, 5⟩⟩
  let step : SourceLine := ⟨"A", 3, ⟨6, 7⟩⟩
  have hlines : sourceLines s.source.text = [outer, inner, step, closing, ⟨"B,,,", 5, ⟨12, 16⟩⟩] := by
    decide +kernel
  have hstack : advance (advance (advance [] outer) inner) step = [⟨inner, 1⟩, ⟨outer, 0⟩] := by
    decide
  have hsuffix : closing.suffix? = some ['0'] := by decide
  have hzero : Mistake s closing [⟨inner, 1⟩, ⟨outer, 0⟩] e :=
    .badCount (by decide) hsuffix (by decide)
  have hfirst : FirstMistake s [] (sourceLines s.source.text) closing e := by
    rw [hlines]
    refine .later (fun _ => not_mistake_of_opens (by decide)) ?_
    refine .later (fun _ => not_mistake_of_opens (by decide)) ?_
    refine .later (fun e' h => ?_) (.here (by rw [hstack]; exact hzero))
    exact absurd ((mistake_iff_of_not_mark (by decide)).mp h).2.1 (by decide)
  obtain ⟨hiff, -, hfault⟩ := parseText_error_iff_first_mistake ⟨[], []⟩ ⟨"a.run"⟩ text hd e
  exact ⟨hd, hfirst, hiff.mpr (.inr ⟨by decide +kernel, closing, hfirst⟩), (hfault _ hfirst).1⟩

end StepRunner.RunFile
