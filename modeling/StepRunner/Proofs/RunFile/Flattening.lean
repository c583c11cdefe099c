import StepRunner.Proofs.RunFile.Forest
import StepRunner.Proofs.Text.Numeral

/-!
# What a text without directives flattens to

A text is accepted if its marks are equally many, its lines are properly nested and the tree they
form is `Legal`; it then gives the texts its tree denotes, each block as often as its closing line
says. Sizes and counts are compared over the natural numbers.
-/

namespace StepRunner.RunFile

namespace SourceLine

def IsDirective (l : SourceLine) : Prop := ∃ target, l.meaning = .inclusion target

instance (l : SourceLine) : Decidable l.IsDirective :=
  match h : l.meaning with
  | .inclusion target => isTrue ⟨target, h⟩
  | .comment | .blockOpen | .blockClose _ | .step _ =>
    isFalse (by rintro ⟨target, ht⟩; rw [h] at ht; cases ht)

/-- How often the block is given that ends with this line. -/
def copies (l : SourceLine) : Nat :=
  match l.suffix? with
  | none => 1
  | some raw => Text.numeralValue raw

/-- A count behind a `*` is an unsigned decimal, neither zero nor beyond 64 bits. -/
def Counted (l : SourceLine) : Prop :=
  ∀ raw ∈ l.suffix?,
    Text.IsNumeral raw ∧ 1 ≤ Text.numeralValue raw ∧ Text.numeralValue raw < UInt64.size

instance (l : SourceLine) : Decidable l.Counted := inferInstanceAs (Decidable (∀ _ ∈ _, _))

end SourceLine

namespace Forest

/-- The texts of the steps of a forest, blocks repeated. -/
def texts (t : Forest) : List String :=
  t.denote (fun l => if l.IsStep then [l.text] else []) SourceLine.copies

/-- What the lines of a forest have to meet besides being nested. -/
structure Legal (t : Forest) : Prop where
  fields : ∀ l ∈ t.lines, l.IsStep → l.text.toList.count ',' + 1 ≤ 3
  counts : ∀ l ∈ t.lines, l.Closes → l.Counted
  sizes : ∀ b ∈ t.blocks, b.closing.copies ≠ 1 → b.body.texts ≠ [] →
    b.closing.copies * b.body.texts.length ≤ 1000000

end Forest

/-! ### Closing lines -/

theorem blockCount_eq_ok_iff {loc : Location} {l : SourceLine} {n : Nat} :
    blockCount loc (l.suffix?.map String.ofList) = .ok n ↔ l.Counted ∧ n = l.copies := by
  unfold SourceLine.Counted SourceLine.copies
  cases l.suffix? with
  | none =>
    simp only [Option.map_none, blockCount, Except.ok.injEq]
    exact ⟨fun h => ⟨by rintro _ ⟨⟩, h.symm⟩, fun h => h.2.symm⟩
  | some raw =>
    simp only [Option.map_some, blockCount, String.toList_ofList]
    split
    · next m hm =>
      obtain ⟨hnum, hval, hlt⟩ := (Text.readNumeral_eq_ok_iff (by decide)).mp hm
      rw [hval]
      constructor
      · rintro ⟨⟩
        refine ⟨?_, rfl⟩
        rintro _ ⟨⟩
        exact ⟨hnum, by omega, by omega⟩
      · rintro ⟨_, rfl⟩
        rfl
    · next hno =>
      constructor
      · intro h; cases h
      · rintro ⟨hc, -⟩
        obtain ⟨hnum, hpos, hlt⟩ := hc raw rfl
        obtain ⟨m, hm⟩ : ∃ m, Text.numeralValue raw = m + 1 :=
          ⟨Text.numeralValue raw - 1, by omega⟩
        exact absurd ((Text.readNumeral_eq_ok_iff (by decide)).mpr ⟨hnum, hm, by omega⟩)
          (hno m)

theorem repeatBlock_eq_ok_iff {loc : Location} {n : Nat} {body all : List Instruction} :
    repeatBlock loc n body = .ok all ↔
      (n ≠ 1 → body ≠ [] → n * body.length ≤ maxExpansion) ∧
        all = (List.replicate n body).flatten := by
  unfold repeatBlock
  split
  · next h =>
    have hall : (List.replicate n body).flatten = body := by
      rcases h with rfl | rfl
      · simp
      · simp
    rw [hall]
    constructor
    · rintro ⟨⟩
      refine ⟨fun hn hb => ?_, rfl⟩
      rcases h with h | h
      · exact absurd h hn
      · exact absurd h hb
    · rintro ⟨-, rfl⟩; rfl
  · next h =>
    obtain ⟨hn, hb⟩ := not_or.mp h
    rw [Nat.mul_comm]
    split
    · next hle =>
      constructor
      · rintro ⟨⟩; exact ⟨fun _ _ => hle, rfl⟩
      · rintro ⟨-, rfl⟩; rfl
    · next hgt =>
      constructor
      · intro he; cases he
      · rintro ⟨hle, -⟩; exact absurd (hle hn hb) hgt

/-! ### Evaluation -/

namespace Forest

/-- A forest can be evaluated if its leaves can and its blocks end as they may; the value is then
what the forest denotes. -/
theorem evaluate_eq_ok_iff {s : Scope} {f : SourceLine → Except ParseError (List Instruction)}
    {g : SourceLine → List Instruction} {t : Forest} {is : List Instruction}
    (hf : ∀ l ∈ t.leaves, ∀ here, f l = .ok here → here = g l) :
    t.evaluate s f = .ok is ↔
      (∀ l ∈ t.leaves, f l = .ok (g l)) ∧
      (∀ b ∈ t.blocks, b.closing.Counted ∧
        (b.closing.copies ≠ 1 → b.body.denote g SourceLine.copies ≠ [] →
          b.closing.copies * (b.body.denote g SourceLine.copies).length ≤ maxExpansion)) ∧
      is = t.denote g SourceLine.copies := by
  induction t generalizing is with
  | empty =>
    simp only [evaluate, leaves, blocks, denote, Except.ok.injEq]
    constructor
    · rintro rfl; exact ⟨by simp, by simp, rfl⟩
    · rintro ⟨-, -, rfl⟩; rfl
  | leaf l hl rest ih =>
    have hrest := fun m hm => hf m (List.mem_cons_of_mem _ hm)
    simp only [evaluate, leaves, blocks, denote, bind_eq_ok_iff, List.forall_mem_cons]
    constructor
    · rintro ⟨here, hhere, more, hmore, ⟨⟩⟩
      obtain rfl := hf l List.mem_cons_self here hhere
      obtain ⟨hleaves, hblocks, rfl⟩ := (ih hrest).mp hmore
      exact ⟨⟨hhere, hleaves⟩, hblocks, rfl⟩
    · rintro ⟨⟨hhere, hleaves⟩, hblocks, rfl⟩
      exact ⟨_, hhere, _, (ih hrest).mpr ⟨hleaves, hblocks, rfl⟩, rfl⟩
  | block o ho body c hc rest ihb ihr =>
    have hbody := fun m hm => hf m (List.mem_append_left _ hm)
    have hrest := fun m hm => hf m (List.mem_append_right _ hm)
    simp only [evaluate, leaves, blocks, denote, bind_eq_ok_iff, List.forall_mem_cons,
      List.forall_mem_append]
    constructor
    · rintro ⟨once, honce, count, hcount, all, hall, more, hmore, ⟨⟩⟩
      obtain ⟨hbl, hbb, rfl⟩ := (ihb hbody).mp honce
      obtain ⟨hrl, hrb, rfl⟩ := (ihr hrest).mp hmore
      obtain ⟨hc, rfl⟩ := blockCount_eq_ok_iff.mp hcount
      obtain ⟨hsize, rfl⟩ := repeatBlock_eq_ok_iff.mp hall
      exact ⟨⟨hbl, hrl⟩, ⟨⟨hc, hsize⟩, hbb, hrb⟩, rfl⟩
    · rintro ⟨⟨hbl, hrl⟩, ⟨⟨hc, hsize⟩, hbb, hrb⟩, rfl⟩
      exact ⟨_, (ihb hbody).mpr ⟨hbl, hbb, rfl⟩, _, blockCount_eq_ok_iff.mpr ⟨hc, rfl⟩, _,
        repeatBlock_eq_ok_iff.mpr ⟨hsize, rfl⟩, _, (ihr hrest).mpr ⟨hrl, hrb, rfl⟩, rfl⟩

theorem map_denote {α β : Type} (h : α → β) (f : SourceLine → List α)
    (copies : SourceLine → Nat) (t : Forest) :
    (t.denote f copies).map h = t.denote (fun l => (f l).map h) copies := by
  induction t with
  | empty => rfl
  | leaf l hl rest ih => simp only [denote, List.map_append, ih]
  | block o ho body c hc rest ihb ihr =>
    simp only [denote, List.map_append, List.map_flatten, List.map_replicate, ihb, ihr]

end Forest

/-! ### Texts without directives -/

theorem checkBalance_eq_ok_iff {source : Source} :
    checkBalance source = .ok () ↔ source.text.toList.count '(' = source.text.toList.count ')' := by
  by_cases h : source.text.toList.count '(' = source.text.toList.count ')' <;>
    simp [checkBalance, h]

/-- The lines of a text are its pieces between newlines, trimmed, that are not blank. -/
theorem map_text_sourceLines (text : String) :
    (sourceLines text).map (·.text.toList) =
      ((Text.splitAt '\n' text.toList).map Text.trim).filter (· ≠ []) := by
  suffices h : ∀ (ps : List (List Char)) (number offset : Nat),
      (SourceLine.ofPieces number offset ps).map (·.text.toList) =
        (ps.map Text.trim).filter (· ≠ []) from h _ _ _
  intro ps
  induction ps with
  | nil => intro number offset; rfl
  | cons p ps ih =>
    intro number offset
    rw [SourceLine.ofPieces, List.map_append, ih, List.map_cons, List.filter_cons,
      SourceLine.ofPiece?]
    by_cases hp : Text.trim p = [] <;> simp [hp]

/-- The instruction of a step line. -/
def stepLine (s : Scope) (l : SourceLine) : List Instruction :=
  if l.IsStep then [⟨l.text, s.path, l.number, l.span, s.source⟩] else []

theorem map_text_denote (s : Scope) (t : Forest) :
    (t.denote (stepLine s) SourceLine.copies).map (·.text) = t.texts := by
  rw [Forest.map_denote, Forest.texts]
  congr 1
  funext l
  by_cases hs : l.IsStep <;> simp [stepLine, hs]

theorem ofLine_eq_ok_iff {s : Scope}
    {inclusion : SourceLine → String → Except ParseError (List Instruction)} {l : SourceLine}
    {here : List Instruction} (hm : ¬ l.Opens ∧ ¬ l.Closes) (hd : ¬ l.IsDirective) :
    ofLine s inclusion l = .ok here ↔
      (l.IsStep → l.text.toList.count ',' + 1 ≤ 3) ∧ here = stepLine s l := by
  rcases l.kind with ho | hc | hn | hs
  · exact absurd ho hm.1
  · exact absurd hc hm.2
  · have hstep : ¬ l.IsStep := fun h => h.2.2 hn
    rcases SourceLine.meaning_of_isNote hn with hc | ⟨target, ht⟩
    · simp only [ofLine, hc, stepLine, hstep, false_imp_iff, true_and, if_false, Except.ok.injEq]
      exact eq_comm
    · exact absurd ⟨target, ht⟩ hd
  · simp only [ofLine, SourceLine.meaning_of_isStep hs, stepLine, hs, true_imp_iff, if_true,
      Line.fieldCount_eq, maxFields]
    split
    · next hgt =>
      constructor
      · intro h; cases h
      · rintro ⟨hle, -⟩; omega
    · next hle =>
      constructor
      · rintro ⟨⟩; exact ⟨by omega, rfl⟩
      · rintro ⟨-, rfl⟩; rfl

/-- Legal forests without directives can be evaluated, and no others. -/
theorem evaluate_ofLine_eq_ok_iff {s : Scope}
    {inclusion : SourceLine → String → Except ParseError (List Instruction)} {t : Forest}
    {is : List Instruction} (hd : ∀ l ∈ t.lines, ¬ l.IsDirective) :
    t.evaluate s (ofLine s inclusion) = .ok is ↔
      t.Legal ∧ is = t.denote (stepLine s) SourceLine.copies := by
  have hleaf : ∀ l ∈ t.leaves, ∀ here, ofLine s inclusion l = .ok here ↔
      (l.IsStep → l.text.toList.count ',' + 1 ≤ 3) ∧ here = stepLine s l := fun l hl here =>
    ofLine_eq_ok_iff (Forest.not_mark_of_mem_leaves hl) (hd l (Forest.mem_lines_of_mem_leaves hl))
  rw [Forest.evaluate_eq_ok_iff fun l hl here h => ((hleaf l hl here).mp h).2]
  constructor
  · rintro ⟨hleaves, hblocks, rfl⟩
    refine ⟨⟨?_, ?_, ?_⟩, rfl⟩
    · intro l hl hs
      rcases Forest.mem_leaves_or_blocks hl with ho | hlf | ⟨b, hb, rfl⟩
      · exact absurd ho hs.1
      · exact ((hleaf l hlf _).mp (hleaves l hlf)).1 hs
      · exact absurd (Forest.closing_of_mem_blocks hb).1 hs.2.1
    · intro l hl hc
      rcases Forest.mem_leaves_or_blocks hl with ho | hlf | ⟨b, hb, rfl⟩
      · rw [SourceLine.Opens, hc] at ho; cases ho
      · exact absurd hc (Forest.not_mark_of_mem_leaves hlf).2
      · exact (hblocks b hb).1
    · intro b hb hcopies hbody
      rw [← map_text_denote s] at hbody ⊢
      rw [List.length_map]
      exact (hblocks b hb).2 hcopies fun h => hbody (by rw [h]; rfl)
  · rintro ⟨hlegal, rfl⟩
    refine ⟨fun l hl => (hleaf l hl _).mpr ⟨?_, rfl⟩, fun b hb => ⟨?_, ?_⟩, rfl⟩
    · exact hlegal.fields l (Forest.mem_lines_of_mem_leaves hl)
    · exact hlegal.counts _ (Forest.closing_of_mem_blocks hb).2 (Forest.closing_of_mem_blocks hb).1
    · intro hcopies hbody
      have hsize := hlegal.sizes b hb hcopies
      rw [← map_text_denote s, List.length_map] at hsize
      exact hsize fun h => hbody (List.map_eq_nil_iff.mp h)

/-- A text whose lines are no directives is accepted if its marks are equally many and its lines
nest to a legal forest, and for no other reason. Its steps are then those the forest denotes. -/
theorem parseText_ok_iff_legal (files : FileTree) (p : Path) (text : String)
    (hd : ∀ l ∈ sourceLines (dropByteOrderMark text), ¬ l.IsDirective) :
    let body := dropByteOrderMark text
    ((∃ is, parseText files p text = .ok is) ↔
      body.toList.count '(' = body.toList.count ')' ∧
        ∃ t : Forest, t.lines = sourceLines body ∧ t.Legal) ∧
    ∀ is t, parseText files p text = .ok is → Forest.lines t = sourceLines body →
      is.map (·.text) = t.texts := by
  intro body
  have hbalance : checkBalance ⟨p.text, body⟩ = .ok () ↔
      body.toList.count '(' = body.toList.count ')' := checkBalance_eq_ok_iff
  have hparse : ∀ is, parseText files p text = .ok is ↔
      body.toList.count '(' = body.toList.count ')' ∧
        ∃ t : Forest, t.lines = sourceLines body ∧ t.Legal ∧
          is = t.denote (stepLine ⟨p, p.text, body⟩) SourceLine.copies := by
    intro is
    rw [parseText, readText, bind_eq_ok_iff]
    constructor
    · rintro ⟨⟨⟩, hbal, hflat⟩
      obtain ⟨t, ht⟩ := exists_forest_of_flatten hflat
      rw [← ht, flatten_lines, evaluate_ofLine_eq_ok_iff (by rw [ht]; exact hd)] at hflat
      exact ⟨hbalance.mp hbal, t, ht, hflat⟩
    · rintro ⟨hbal, t, ht, hlegal, his⟩
      refine ⟨(), hbalance.mpr hbal, ?_⟩
      show flatten _ _ (sourceLines body) = .ok is
      rw [← ht, flatten_lines, evaluate_ofLine_eq_ok_iff (by rw [ht]; exact hd)]
      exact ⟨hlegal, his⟩
  constructor
  · constructor
    · rintro ⟨is, his⟩
      obtain ⟨hbal, t, ht, hlegal, _⟩ := (hparse is).mp his
      exact ⟨hbal, t, ht, hlegal⟩
    · rintro ⟨hbal, t, ht, hlegal⟩
      exact ⟨_, (hparse _).mpr ⟨hbal, t, ht, hlegal, rfl⟩⟩
  · intro is t his ht
    obtain ⟨-, u, hu, -, rfl⟩ := (hparse is).mp his
    obtain rfl := Forest.lines_inj (hu.trans ht.symm)
    exact map_text_denote _ _

/-- Nested blocks behind a byte order mark. -/
theorem parseText_nested_blocks :
    let text := "\ufeff(\n (\nA,b\n) *2\n; note\nB\n)*+2 \n"
    (∀ l ∈ sourceLines (dropByteOrderMark text), ¬ l.IsDirective) ∧
      ∃ is, parseText ⟨[], []⟩ ⟨"a.run"⟩ text = .ok is ∧
        is.map (·.text) = ["A,b", "A,b", "B", "A,b", "A,b", "B"] := by
  intro text
  have hd : ∀ l ∈ sourceLines (dropByteOrderMark text), ¬ l.IsDirective := by decide +kernel
  obtain ⟨hiff, htexts⟩ := parseText_ok_iff_legal ⟨[], []⟩ ⟨"a.run"⟩ text hd
  let inner : Forest :=
    .block ⟨"(", 2, ⟨3, 4⟩⟩ (by decide) (.leaf ⟨"A,b", 3, ⟨5, 8⟩⟩ (by decide) .empty)
      ⟨") *2", 4, ⟨9, 13⟩⟩ (by decide)
      (.leaf ⟨"; note", 5, ⟨14, 20⟩⟩ (by decide) (.leaf ⟨"B", 6, ⟨21, 22⟩⟩ (by decide) .empty))
  let t : Forest :=
    .block ⟨"(", 1, ⟨0, 1⟩⟩ (by decide) inner ⟨")*+2", 7, ⟨23, 27⟩⟩ (by decide) .empty
  have ht : t.lines = sourceLines (dropByteOrderMark text) := by decide +kernel
  have hlegal : t.Legal := ⟨by decide +kernel, by decide +kernel, by decide +kernel⟩
  have hbalanced : (dropByteOrderMark text).toList.count '(' =
      (dropByteOrderMark text).toList.count ')' := by decide +kernel
  have ht' : t.texts = ["A,b", "A,b", "B", "A,b", "A,b", "B"] := by decide +kernel
  obtain ⟨is, his⟩ := hiff.mpr ⟨hbalanced, t, ht, hlegal⟩
  refine ⟨hd, is, his, ?_⟩
  rw [htexts is t his ht, ht']

end StepRunner.RunFile
