import StepRunner.Proofs.RunFile.Inclusion

/-!
# How much a block gives

A block of an accepted text that is repeated gives no more than `maxExpansion` instructions, and so
does every block in it (`bounded_of_ok`). A block that is given once is not held to that: it may be
longer than any that is repeated (`long_block_given_once`).
-/

namespace StepRunner.RunFile

namespace Forest

/-- The instructions of a block, as often as its closing line says. -/
def Block.expansion {α : Type} (b : Block) (f : SourceLine → List α) : List α :=
  (List.replicate b.closing.copies (b.body.denote f SourceLine.copies)).flatten

/-- Repeated blocks and the blocks in them are kept within the limit. -/
def Bounded (t : Forest) (f : SourceLine → List Instruction) : Prop :=
  ∀ b ∈ t.blocks, b.closing.copies ≠ 1 →
    ∀ b' ∈ b :: b.body.blocks, (b'.expansion f).length ≤ maxExpansion

section

variable {α : Type} {f : SourceLine → List α} {t : Forest} {b b' : Block}

@[simp] theorem length_expansion : (b.expansion f).length =
    b.closing.copies * (b.body.denote f SourceLine.copies).length := by
  rw [Block.expansion, List.length_flatten, List.map_replicate, List.sum_replicate_nat]

theorem blocks_body_subset (h : b ∈ t.blocks) : b.body.blocks ⊆ t.blocks := by
  induction t with
  | empty => cases h
  | leaf l hl rest ih => exact ih h
  | block o ho body c hc rest ihb ihr =>
    rw [blocks]
    rcases List.mem_cons.mp h with rfl | h
    · exact fun b' hb' => List.mem_cons_of_mem _ (List.mem_append_left _ hb')
    · rcases List.mem_append.mp h with h | h
      · exact fun b' hb' => List.mem_cons_of_mem _ (List.mem_append_left _ (ihb h hb'))
      · exact fun b' hb' => List.mem_cons_of_mem _ (List.mem_append_right _ (ihr h hb'))

/-- What a block gives is part of what is around it. -/
theorem length_expansion_le_denote (hcopies : ∀ b ∈ t.blocks, 1 ≤ b.closing.copies)
    (h : b ∈ t.blocks) : (b.expansion f).length ≤ (t.denote f SourceLine.copies).length := by
  induction t with
  | empty => cases h
  | leaf l hl rest ih =>
    rw [denote, List.length_append]
    exact Nat.le_add_left_of_le (ih hcopies h)
  | block o ho body c hc rest ihb ihr =>
    rw [blocks, List.forall_mem_cons, List.forall_mem_append] at hcopies
    obtain ⟨hc, hbody, hrest⟩ := hcopies
    change _ ≤ (Block.expansion ⟨body, c⟩ f ++ rest.denote f SourceLine.copies).length
    rw [List.length_append]
    rcases List.mem_cons.mp h with rfl | h
    · exact Nat.le_add_right ..
    · rcases List.mem_append.mp h with h | h
      · calc (b.expansion f).length
            ≤ (body.denote f SourceLine.copies).length := ihb hbody h
          _ ≤ c.copies * (body.denote f SourceLine.copies).length := Nat.le_mul_of_pos_left _ hc
          _ ≤ _ := by rw [length_expansion]; exact Nat.le_add_right ..
      · exact Nat.le_add_left_of_le (ihr hrest h)

end

end Forest

theorem SourceLine.Counted.one_le_copies {l : SourceLine} (h : l.Counted) : 1 ≤ l.copies := by
  unfold copies
  split
  · exact Nat.le_refl 1
  · next raw hraw => exact (h raw hraw).2.1

section

variable {files : FileTree} {read : Path → Except ParseError (List Instruction)} {s : Scope}
  {t : Forest} {f : SourceLine → List Instruction}

theorem Reading.bounded (h : Reading files read s t f) : t.Bounded f := by
  intro b hb hn
  have hself : (b.expansion f).length ≤ maxExpansion := by
    rw [Forest.length_expansion]
    by_cases hempty : b.body.denote f SourceLine.copies = []
    · rw [hempty]
      exact Nat.zero_le _
    · exact (h.blocks b hb).2 hn hempty
  have hcopies : ∀ b' ∈ t.blocks, 1 ≤ b'.closing.copies :=
    fun b' hb' => (h.blocks b' hb').1.one_le_copies
  rw [List.forall_mem_cons]
  refine ⟨hself, fun b' hb' => ?_⟩
  calc (b'.expansion f).length
      ≤ (b.body.denote f SourceLine.copies).length :=
        Forest.length_expansion_le_denote
          (fun b' hb' => hcopies b' (Forest.blocks_body_subset hb hb')) hb'
    _ ≤ (b.expansion f).length := by
        rw [Forest.length_expansion]
        exact Nat.le_mul_of_pos_left _ (hcopies b hb)
    _ ≤ maxExpansion := hself

/-- A text without directives says what its step lines say. -/
theorem Reading.of_plain (hd : ∀ l ∈ t.leaves, ¬ l.IsDirective)
    (hbalanced : s.source.text.toList.count '(' = s.source.text.toList.count ')')
    (hlines : t.lines = sourceLines s.source.text)
    (hfields : ∀ l ∈ t.leaves, l.IsStep → l.text.toList.count ',' + 1 ≤ 3)
    (hblocks : ∀ b ∈ t.blocks, b.closing.Counted ∧
      (b.closing.copies ≠ 1 → b.body.denote (stepLine s) SourceLine.copies ≠ [] →
        b.closing.copies * (b.body.denote (stepLine s) SourceLine.copies).length ≤ maxExpansion)) :
    Reading files read s t (stepLine s) where
  balanced := hbalanced
  lines := hlines
  plain l hl _ := ⟨hfields l hl, rfl⟩
  directive l hl target hm := absurd ⟨target, hm⟩ (hd l hl)
  blocks := hblocks

end

/-- In every file that is read and in every text, the repeated blocks are kept within the limit. -/
theorem bounded_of_ok (files : FileTree) (p : Path) (is : List Instruction) :
    (∀ chain, readFile files chain p = .ok is → ∃ text t f, HasText files p text ∧
      Reading files (readFile files (identity files p :: chain)) (fileScope p text) t f ∧
        is = t.denote f SourceLine.copies ∧ t.Bounded f) ∧
    ∀ text, parseText files p text = .ok is → ∃ t f,
      Reading files (readFile files [identity files p]) (fileScope p text) t f ∧
        is = t.denote f SourceLine.copies ∧ t.Bounded f := by
  constructor
  · intro chain h
    obtain ⟨text, htext, -, t, f, hreading, his⟩ := readFile_eq_ok_iff.mp h
    exact ⟨text, t, f, htext, hreading, his, hreading.bounded⟩
  · intro text h
    obtain ⟨t, f, hreading, his⟩ := readText_eq_ok_iff.mp h
    exact ⟨t, f, hreading, his, hreading.bounded⟩

/-- A block in a block, both repeated. -/
theorem bounded_of_nested_blocks :
    let text := "(\n(\nA\n)*2\nB\n)*3\n"
    ∃ is, parseText ⟨[], []⟩ ⟨"a.run"⟩ text = .ok is ∧ is.length = 9 ∧ ∃ t f,
      Reading ⟨[], []⟩ (readFile ⟨[], []⟩ [identity ⟨[], []⟩ ⟨"a.run"⟩]) (fileScope ⟨"a.run"⟩ text)
        t f ∧ is = t.denote f SourceLine.copies ∧ t.Bounded f := by
  intro text
  let inner : Forest :=
    .block ⟨"(", 2, ⟨2, 3⟩⟩ (by decide) (.leaf ⟨"A", 3, ⟨4, 5⟩⟩ (by decide) .empty)
      ⟨")*2", 4, ⟨6, 9⟩⟩ (by decide) (.leaf ⟨"B", 5, ⟨10, 11⟩⟩ (by decide) .empty)
  let t : Forest :=
    .block ⟨"(", 1, ⟨0, 1⟩⟩ (by decide) inner ⟨")*3", 6, ⟨12, 15⟩⟩ (by decide) .empty
  have hparse : parseText ⟨[], []⟩ ⟨"a.run"⟩ text = .ok (t.denote (stepLine _) SourceLine.copies) :=
    readText_eq_ok_iff.mpr ⟨t, _, .of_plain (by decide +kernel) (by decide +kernel)
      (by decide +kernel) (by decide +kernel) (by decide +kernel), rfl⟩
  exact ⟨_, hparse, by decide +kernel, (bounded_of_ok ⟨[], []⟩ ⟨"a.run"⟩ _).2 text hparse⟩

/-- A block that is given once is accepted with more instructions than the limit. -/
theorem long_block_given_once :
    let text := "(\n(\nA\n)*1000000\nB\n)\n"
    ∃ is, parseText ⟨[], []⟩ ⟨"a.run"⟩ text = .ok is ∧ ∃ t f,
      Reading ⟨[], []⟩ (readFile ⟨[], []⟩ [identity ⟨[], []⟩ ⟨"a.run"⟩]) (fileScope ⟨"a.run"⟩ text)
        t f ∧ is = t.denote f SourceLine.copies ∧
          ¬ ∀ b ∈ t.blocks, (b.expansion f).length ≤ maxExpansion := by
  intro text
  let repeated : Forest.Block :=
    ⟨.leaf ⟨"A", 3, ⟨4, 5⟩⟩ (by decide) .empty, ⟨")*1000000", 4, ⟨6, 15⟩⟩⟩
  let rest : Forest := .leaf ⟨"B", 5, ⟨16, 17⟩⟩ (by decide) .empty
  let once : Forest.Block :=
    ⟨.block ⟨"(", 2, ⟨2, 3⟩⟩ (by decide) repeated.body repeated.closing (by decide) rest,
      ⟨")", 6, ⟨18, 19⟩⟩⟩
  let t : Forest := .block ⟨"(", 1, ⟨0, 1⟩⟩ (by decide) once.body once.closing (by decide) .empty
  let f := stepLine (fileScope ⟨"a.run"⟩ text)
  have hreading : ∀ files read, Reading files read (fileScope ⟨"a.run"⟩ text) t f :=
    fun files read => .of_plain (by decide +kernel) (by decide +kernel) (by decide +kernel)
      (by decide +kernel) (by decide +kernel)
  refine ⟨_, readText_eq_ok_iff.mpr ⟨t, f, hreading .., rfl⟩, t, f, hreading .., rfl, fun h => ?_⟩
  have hlong : (once.body.denote f SourceLine.copies).length = 1000001 := by
    change (repeated.expansion f ++ rest.denote f SourceLine.copies).length = _
    rw [List.length_append, Forest.length_expansion]
    decide +kernel
  have hbound := h once List.mem_cons_self
  rw [Forest.length_expansion, hlong] at hbound
  revert hbound
  decide +kernel

end StepRunner.RunFile
