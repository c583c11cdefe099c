import StepRunner.RunFile.Parse

/-!
# Trees of lines

Lines whose blocks are properly nested are the lines of a `Forest`, and of one only. `denote` is
what a forest stands for when each line outside the block marks stands for something; `evaluate`
computes it with the errors on the way. The main lemmas: flattening the lines of a forest is
evaluating it (`flatten_lines`), and lines that flatten are the lines of a forest
(`exists_forest_of_flatten`).
-/

namespace StepRunner.RunFile

/-! ### Kinds of lines -/

namespace SourceLine

def first? (l : SourceLine) : Option Char := l.text.toList.head?

def Opens (l : SourceLine) : Prop := l.first? = some '('

def Closes (l : SourceLine) : Prop := l.first? = some ')'

/-- A comment or a directive. -/
def IsNote (l : SourceLine) : Prop := l.first? = some ';'

def IsStep (l : SourceLine) : Prop := ¬ l.Opens ∧ ¬ l.Closes ∧ ¬ l.IsNote

instance (l : SourceLine) : Decidable l.Opens := inferInstanceAs (Decidable (_ = _))

instance (l : SourceLine) : Decidable l.Closes := inferInstanceAs (Decidable (_ = _))

instance (l : SourceLine) : Decidable l.IsNote := inferInstanceAs (Decidable (_ = _))

instance (l : SourceLine) : Decidable l.IsStep := inferInstanceAs (Decidable (_ ∧ _))

/-- What stands behind the `*` of a closing line. -/
def suffix? (l : SourceLine) : Option (List Char) := Line.blockCount? l.text.toList.tail

theorem meaning_of_opens {l : SourceLine} (h : l.Opens) : l.meaning = .blockOpen := by
  obtain ⟨r, hr⟩ := List.head?_eq_some_iff.mp h
  simp only [meaning, Line.classify, hr]

theorem meaning_of_closes {l : SourceLine} (h : l.Closes) :
    l.meaning = .blockClose (l.suffix?.map String.ofList) := by
  obtain ⟨r, hr⟩ := List.head?_eq_some_iff.mp h
  simp only [meaning, Line.classify, suffix?, hr, List.tail_cons]

theorem meaning_of_isStep {l : SourceLine} (h : l.IsStep) : l.meaning = .step l.text := by
  obtain ⟨ho, hc, hn⟩ := h
  unfold meaning Line.classify
  split
  · next hr => exact absurd (List.head?_eq_some_iff.mpr ⟨_, hr⟩) hn
  · next hr => exact absurd (List.head?_eq_some_iff.mpr ⟨_, hr⟩) ho
  · next hr => exact absurd (List.head?_eq_some_iff.mpr ⟨_, hr⟩) hc
  · rfl

theorem meaning_of_isNote {l : SourceLine} (h : l.IsNote) :
    l.meaning = .comment ∨ ∃ target, l.meaning = .inclusion target := by
  obtain ⟨r, hr⟩ := List.head?_eq_some_iff.mp h
  simp only [meaning, Line.classify, hr]
  cases Line.directiveTarget? r with
  | none => exact .inl rfl
  | some t => exact .inr ⟨_, rfl⟩

/-- The first character of a line decides between the four kinds. -/
theorem kind (l : SourceLine) : l.Opens ∨ l.Closes ∨ l.IsNote ∨ l.IsStep := by
  by_cases ho : l.Opens
  · exact .inl ho
  · by_cases hc : l.Closes
    · exact .inr (.inl hc)
    · by_cases hn : l.IsNote
      · exact .inr (.inr (.inl hn))
      · exact .inr (.inr (.inr ⟨ho, hc, hn⟩))

end SourceLine

/-! ### Forests -/

/-- Properly nested lines. A leaf is a line that neither opens nor closes a block. -/
inductive Forest where
  | empty
  | leaf (l : SourceLine) (inner : ¬ l.Opens ∧ ¬ l.Closes) (rest : Forest)
  | block (opening : SourceLine) (opens : opening.Opens) (body : Forest)
      (closing : SourceLine) (closes : closing.Closes) (rest : Forest)

namespace Forest

/-- The lines of a forest, in order. -/
def lines : Forest → List SourceLine
  | empty => []
  | leaf l _ rest => l :: rest.lines
  | block opening _ body closing _ rest => opening :: (body.lines ++ closing :: rest.lines)

def leaves : Forest → List SourceLine
  | empty => []
  | leaf l _ rest => l :: rest.leaves
  | block _ _ body _ _ rest => body.leaves ++ rest.leaves

/-- A closing line and the body of its block. -/
structure Block where
  body : Forest
  closing : SourceLine

/-- All blocks, at any depth. -/
def blocks : Forest → List Block
  | empty => []
  | leaf _ _ rest => rest.blocks
  | block _ _ body closing _ rest => ⟨body, closing⟩ :: (body.blocks ++ rest.blocks)

theorem mem_lines_of_mem_leaves {t : Forest} {l : SourceLine} (h : l ∈ t.leaves) :
    l ∈ t.lines := by
  induction t with
  | empty => exact h
  | leaf m hm rest ih =>
    rcases List.mem_cons.mp h with rfl | h
    · exact List.mem_cons_self
    · exact List.mem_cons_of_mem _ (ih h)
  | block o ho body c hc rest ihb ihr =>
    rcases List.mem_append.mp h with h | h
    · exact List.mem_cons_of_mem _ (List.mem_append_left _ (ihb h))
    · exact List.mem_cons_of_mem _ (List.mem_append_right _ (List.mem_cons_of_mem _ (ihr h)))

/-- A line of a forest that is no mark is a leaf, one that closes ends a block. -/
theorem mem_leaves_or_blocks {t : Forest} {l : SourceLine} (h : l ∈ t.lines) :
    l.Opens ∨ l ∈ t.leaves ∨ ∃ b ∈ t.blocks, b.closing = l := by
  induction t with
  | empty => cases h
  | leaf m hm rest ih =>
    rcases List.mem_cons.mp h with rfl | h
    · exact .inr (.inl List.mem_cons_self)
    · rcases ih h with ho | hl | hb
      · exact .inl ho
      · exact .inr (.inl (List.mem_cons_of_mem _ hl))
      · exact .inr (.inr hb)
  | block o ho body c hc rest ihb ihr =>
    simp only [lines, List.mem_cons, List.mem_append] at h
    simp only [leaves, blocks, List.mem_cons, List.mem_append]
    rcases h with rfl | h | rfl | h
    · exact .inl ho
    · rcases ihb h with ho | hl | ⟨b, hb, rfl⟩
      · exact .inl ho
      · exact .inr (.inl (.inl hl))
      · exact .inr (.inr ⟨b, .inr (.inl hb), rfl⟩)
    · exact .inr (.inr ⟨_, .inl rfl, rfl⟩)
    · rcases ihr h with ho | hl | ⟨b, hb, rfl⟩
      · exact .inl ho
      · exact .inr (.inl (.inr hl))
      · exact .inr (.inr ⟨b, .inr (.inr hb), rfl⟩)

theorem not_mark_of_mem_leaves {t : Forest} {l : SourceLine} (h : l ∈ t.leaves) :
    ¬ l.Opens ∧ ¬ l.Closes := by
  induction t with
  | empty => cases h
  | leaf m hm rest ih =>
    rcases List.mem_cons.mp h with rfl | h
    · exact hm
    · exact ih h
  | block o ho body c hc rest ihb ihr =>
    rcases List.mem_append.mp h with h | h
    · exact ihb h
    · exact ihr h

theorem closing_of_mem_blocks {t : Forest} {b : Block} (h : b ∈ t.blocks) :
    b.closing.Closes ∧ b.closing ∈ t.lines := by
  induction t with
  | empty => cases h
  | leaf m hm rest ih => exact ⟨(ih h).1, List.mem_cons_of_mem _ (ih h).2⟩
  | block o ho body c hc rest ihb ihr =>
    simp only [blocks, List.mem_cons, List.mem_append] at h
    simp only [lines, List.mem_cons, List.mem_append]
    rcases h with rfl | h | h
    · exact ⟨hc, .inr (.inr (.inl rfl))⟩
    · exact ⟨(ihb h).1, .inr (.inl (ihb h).2)⟩
    · exact ⟨(ihr h).1, .inr (.inr (.inr (ihr h).2))⟩

end Forest

/-! ### Cutting -/

theorem cutBlock_cons_of_not_mark {l : SourceLine} (h : ¬ l.Opens ∧ ¬ l.Closes) (depth : Nat)
    (r : List SourceLine) :
    cutBlock depth (l :: r) = (l :: (cutBlock depth r).1, (cutBlock depth r).2) := by
  rcases l.kind with ho | hc | hn | hs
  · exact absurd ho h.1
  · exact absurd hc h.2
  · rcases SourceLine.meaning_of_isNote hn with hm | ⟨target, hm⟩ <;> simp only [cutBlock, hm]
  · simp only [cutBlock, SourceLine.meaning_of_isStep hs]

theorem cutBlock_cons_of_opens {l : SourceLine} (h : l.Opens) (depth : Nat)
    (r : List SourceLine) :
    cutBlock depth (l :: r) = (l :: (cutBlock (depth + 1) r).1, (cutBlock (depth + 1) r).2) := by
  simp only [cutBlock, SourceLine.meaning_of_opens h]

theorem cutBlock_succ_cons_of_closes {l : SourceLine} (h : l.Closes) (depth : Nat)
    (r : List SourceLine) :
    cutBlock (depth + 1) (l :: r) = (l :: (cutBlock depth r).1, (cutBlock depth r).2) := by
  simp only [cutBlock, SourceLine.meaning_of_closes h]

theorem cutBlock_zero_cons_of_closes {l : SourceLine} (h : l.Closes) (r : List SourceLine) :
    cutBlock 0 (l :: r) = ([], some ⟨l, l.suffix?.map String.ofList, r⟩) := by
  simp only [cutBlock, SourceLine.meaning_of_closes h]

/-- Cutting runs through a forest at any depth. -/
theorem cutBlock_lines_append (t : Forest) (depth : Nat) (ls : List SourceLine) :
    cutBlock depth (t.lines ++ ls) = (t.lines ++ (cutBlock depth ls).1, (cutBlock depth ls).2) := by
  induction t generalizing depth ls with
  | empty => rfl
  | leaf l hl rest ih =>
    rw [Forest.lines, List.cons_append, cutBlock_cons_of_not_mark hl, ih]
    rfl
  | block o ho body c hc rest ihb ihr =>
    rw [Forest.lines, List.cons_append, List.append_assoc, List.cons_append,
      cutBlock_cons_of_opens ho, ihb, cutBlock_succ_cons_of_closes hc, ihr]
    simp

theorem cutBlock_lines_close (t : Forest) {c : SourceLine} (hc : c.Closes)
    (r : List SourceLine) :
    cutBlock 0 (t.lines ++ c :: r) = (t.lines, some ⟨c, c.suffix?.map String.ofList, r⟩) := by
  rw [cutBlock_lines_append, cutBlock_zero_cons_of_closes hc]
  simp

/-- What is cut at its end is put together again by the closing line. -/
theorem eq_append_of_cutBlock {depth : Nat} {ls body : List SourceLine} {e : BlockEnd}
    (h : cutBlock depth ls = (body, some e)) :
    ls = body ++ e.line :: e.rest ∧ e.line.Closes := by
  induction ls generalizing depth body with
  | nil => cases h
  | cons l r ih =>
    have hcons : ∀ d, (l :: (cutBlock d r).1, (cutBlock d r).2) = (body, some e) →
        l :: r = body ++ e.line :: e.rest ∧ e.line.Closes := by
      intro d hd
      obtain ⟨hbody, he⟩ := Prod.mk.inj hd
      have hr := ih (Prod.ext rfl he : cutBlock d r = ((cutBlock d r).1, some e))
      exact ⟨by rw [← hbody, List.cons_append, ← hr.1], hr.2⟩
    by_cases ho : l.Opens
    · rw [cutBlock_cons_of_opens ho] at h
      exact hcons _ h
    · by_cases hc : l.Closes
      · cases depth with
        | zero =>
          rw [cutBlock_zero_cons_of_closes hc] at h
          obtain ⟨rfl, he⟩ := Prod.mk.inj h
          cases he
          exact ⟨rfl, hc⟩
        | succ d =>
          rw [cutBlock_succ_cons_of_closes hc] at h
          exact hcons _ h
      · rw [cutBlock_cons_of_not_mark ⟨ho, hc⟩] at h
        exact hcons _ h

/-- Lines are nested in one way at most. -/
theorem Forest.lines_inj {t u : Forest} (h : t.lines = u.lines) : t = u := by
  induction t generalizing u with
  | empty =>
    cases u with
    | empty => rfl
    | leaf | block => cases h
  | leaf l hl rest ih =>
    cases u with
    | empty => cases h
    | leaf m hm rest' =>
      obtain ⟨rfl, hr⟩ := List.cons.inj h
      rw [ih hr]
    | block o ho body c hc rest' =>
      obtain ⟨rfl, _⟩ := List.cons.inj h
      exact absurd ho hl.1
  | block o ho body c hc rest ihb ihr =>
    cases u with
    | empty => cases h
    | leaf m hm rest' =>
      obtain ⟨rfl, _⟩ := List.cons.inj h
      exact absurd ho hm.1
    | block o' ho' body' c' hc' rest' =>
      obtain ⟨rfl, hr⟩ := List.cons.inj h
      -- Both bodies are what is cut off the same lines.
      have hcut := congrArg (cutBlock 0) hr
      rw [cutBlock_lines_close body hc, cutBlock_lines_close body' hc'] at hcut
      obtain ⟨hbody, hend⟩ := Prod.mk.inj hcut
      obtain ⟨rfl, -, hrest⟩ := BlockEnd.mk.inj (Option.some.inj hend)
      obtain rfl := ihb hbody
      obtain rfl := ihr hrest
      rfl

/-! ### Flattening -/

/-- The instructions of a line that is no mark. -/
def ofLine (s : Scope) (inclusion : SourceLine → String → Except ParseError (List Instruction))
    (l : SourceLine) : Except ParseError (List Instruction) :=
  match l.meaning with
  | .step text =>
    if maxFields < Line.fieldCount text then .error (.tooManyFields (s.locate l))
    else .ok [⟨text, s.path, l.number, l.span, s.source⟩]
  | .inclusion target => inclusion l target
  | _ => .ok []

namespace Forest

/-- What a forest stands for if a leaf `l` stands for `f l`. -/
def denote {α : Type} (f : SourceLine → List α) (copies : SourceLine → Nat) : Forest → List α
  | empty => []
  | leaf l _ rest => f l ++ rest.denote f copies
  | block _ _ body closing _ rest =>
    (List.replicate (copies closing) (body.denote f copies)).flatten ++ rest.denote f copies

/-- The instructions of a forest, or the first error from left to right; that of a closing line
comes behind those of its block. -/
def evaluate (s : Scope) (f : SourceLine → Except ParseError (List Instruction)) :
    Forest → Except ParseError (List Instruction)
  | empty => .ok []
  | leaf l _ rest => do
    let here ← f l
    let more ← rest.evaluate s f
    return here ++ more
  | block _ _ body closing _ rest => do
    let once ← body.evaluate s f
    let count ← blockCount (s.locate closing) (closing.suffix?.map String.ofList)
    let all ← repeatBlock (s.locate closing) count once
    let more ← rest.evaluate s f
    return all ++ more

end Forest

theorem bind_eq_ok_iff {ε α β : Type} {x : Except ε α} {f : α → Except ε β} {b : β} :
    x >>= f = .ok b ↔ ∃ a, x = .ok a ∧ f a = .ok b := by
  cases x with
  | error e =>
    constructor
    · intro h; cases h
    · rintro ⟨_, h, _⟩; cases h
  | ok a =>
    constructor
    · intro h; exact ⟨a, rfl, h⟩
    · rintro ⟨_, ⟨⟩, h⟩; exact h

theorem bind_eq_error_iff {ε α β : Type} {x : Except ε α} {f : α → Except ε β} {e : ε} :
    x >>= f = .error e ↔ x = .error e ∨ ∃ a, x = .ok a ∧ f a = .error e := by
  cases x with
  | error e' =>
    constructor
    · intro h; cases h; exact .inl rfl
    · rintro (h | ⟨_, h, _⟩)
      · cases h; rfl
      · cases h
  | ok a =>
    constructor
    · intro h; exact .inr ⟨a, rfl, h⟩
    · rintro (h | ⟨_, ⟨⟩, h⟩)
      · cases h
      · exact h

section
variable {s : Scope} {inclusion : SourceLine → String → Except ParseError (List Instruction)}

theorem flatten_cons_of_not_mark {l : SourceLine} (h : ¬ l.Opens ∧ ¬ l.Closes)
    (r : List SourceLine) :
    flatten s inclusion (l :: r) = (do
      let here ← ofLine s inclusion l
      let more ← flatten s inclusion r
      return here ++ more) := by
  rw [flatten, ofLine]
  rcases l.kind with ho | hc | hn | hs
  · exact absurd ho h.1
  · exact absurd hc h.2
  · rcases SourceLine.meaning_of_isNote hn with hm | ⟨target, hm⟩
    · rw [hm]
      cases flatten s inclusion r <;> rfl
    · rw [hm]
  · rw [SourceLine.meaning_of_isStep hs]
    dsimp only
    split
    · rfl
    · cases flatten s inclusion r <;> rfl

theorem flatten_cons_of_closes {l : SourceLine} (h : l.Closes) (r : List SourceLine) :
    flatten s inclusion (l :: r) = .error (.unexpectedClose (s.locate l)) := by
  rw [flatten, SourceLine.meaning_of_closes h]

theorem flatten_cons_of_cut {l : SourceLine} (h : l.Opens) {r body : List SourceLine}
    {e : BlockEnd} (hcut : cutBlock 0 r = (body, some e)) :
    flatten s inclusion (l :: r) = (do
      let once ← flatten s inclusion body
      let count ← blockCount (s.locate e.line) e.count
      let all ← repeatBlock (s.locate e.line) count once
      let more ← flatten s inclusion e.rest
      return all ++ more) := by
  rw [flatten, SourceLine.meaning_of_opens h]
  dsimp only
  split
  · next h' => rw [hcut] at h'; cases h'
  · next h' => rw [hcut] at h'; cases h'; rfl

theorem flatten_cons_of_uncut {l : SourceLine} (h : l.Opens) {r body : List SourceLine}
    (hcut : cutBlock 0 r = (body, none)) :
    flatten s inclusion (l :: r) = (do
      let _ ← flatten s inclusion body
      .error (.neverClosed (s.locate l))) := by
  rw [flatten, SourceLine.meaning_of_opens h]
  dsimp only
  split
  · next h' => rw [hcut] at h'; cases h'; rfl
  · next h' => rw [hcut] at h'; cases h'

/-- Flattening follows the nesting of the lines, whatever comes of it. -/
theorem flatten_lines (t : Forest) :
    flatten s inclusion t.lines = t.evaluate s (ofLine s inclusion) := by
  induction t with
  | empty => rw [Forest.lines, flatten, Forest.evaluate]
  | leaf l hl rest ih => rw [Forest.lines, flatten_cons_of_not_mark hl, ih, Forest.evaluate]
  | block o ho body c hc rest ihb ihr =>
    rw [Forest.lines, flatten_cons_of_cut ho (cutBlock_lines_close body hc rest.lines), ihb, ihr,
      Forest.evaluate]

end

/-- Lines that flatten are properly nested. -/
theorem exists_forest_of_flatten {s : Scope}
    {inclusion : SourceLine → String → Except ParseError (List Instruction)}
    {ls : List SourceLine} {is : List Instruction} (h : flatten s inclusion ls = .ok is) :
    ∃ t : Forest, t.lines = ls := by
  induction hn : ls.length using Nat.strongRecOn generalizing ls is with
  | _ n ih =>
    cases ls with
    | nil => exact ⟨.empty, rfl⟩
    | cons l r =>
      rw [List.length_cons] at hn
      by_cases ho : l.Opens
      · obtain ⟨hle, hlt⟩ := cutBlock_length 0 r
        cases hcut : cutBlock 0 r with
        | mk body stop =>
          rw [hcut] at hle hlt
          cases stop with
          | none =>
            rw [flatten_cons_of_uncut ho hcut] at h
            obtain ⟨_, _, herr⟩ := bind_eq_ok_iff.mp h
            cases herr
          | some e =>
            rw [flatten_cons_of_cut ho hcut] at h
            obtain ⟨once, hbody, h⟩ := bind_eq_ok_iff.mp h
            obtain ⟨count, _, h⟩ := bind_eq_ok_iff.mp h
            obtain ⟨all, _, h⟩ := bind_eq_ok_iff.mp h
            obtain ⟨more, hrest, _⟩ := bind_eq_ok_iff.mp h
            have hlen := hlt e rfl
            obtain ⟨tb, rfl⟩ := ih body.length (by simp only at hle; omega) hbody rfl
            obtain ⟨tr, htr⟩ := ih e.rest.length (by omega) hrest rfl
            obtain ⟨hr, hc⟩ := eq_append_of_cutBlock hcut
            exact ⟨.block l ho tb e.line hc tr, by rw [Forest.lines, htr, ← hr]⟩
      · by_cases hc : l.Closes
        · rw [flatten_cons_of_closes hc] at h
          cases h
        · rw [flatten_cons_of_not_mark ⟨ho, hc⟩] at h
          obtain ⟨_, _, h⟩ := bind_eq_ok_iff.mp h
          obtain ⟨more, hrest, _⟩ := bind_eq_ok_iff.mp h
          obtain ⟨t, ht⟩ := ih r.length (by omega) hrest rfl
          exact ⟨.leaf l ⟨ho, hc⟩ t, by rw [Forest.lines, ht]⟩

end StepRunner.RunFile
