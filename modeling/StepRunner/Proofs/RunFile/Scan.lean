import StepRunner.Proofs.RunFile.Forest

/-!
# Reading lines from left to right

`Progress` is how far the lines of a file have been read: the blocks that are open and the
instructions given so far. `scan` takes up one line after another and stops at the first error. The
main lemma: this is flattening, errors included (`flatten_eq_scan`).
-/

namespace StepRunner.RunFile

/-! ### Where a block ends -/

/-- A line ends the block, or it belongs to it and the cut goes on behind it. -/
theorem cutBlock_cons (depth : Nat) (l : SourceLine) :
    (depth = 0 ∧ l.Closes) ∨ ∃ d, ∀ more r, cutBlock (more + depth) (l :: r) =
      (l :: (cutBlock (more + d) r).1, (cutBlock (more + d) r).2) := by
  by_cases ho : l.Opens
  · exact .inr ⟨depth + 1, fun more r => cutBlock_cons_of_opens ho (more + depth) r⟩
  · by_cases hc : l.Closes
    · cases depth with
      | zero => exact .inl ⟨rfl, hc⟩
      | succ d => exact .inr ⟨d, fun more r => cutBlock_succ_cons_of_closes hc (more + d) r⟩
    · exact .inr ⟨depth, fun more r => cutBlock_cons_of_not_mark ⟨ho, hc⟩ (more + depth) r⟩

theorem eq_of_cutBlock_none {depth : Nat} {ls body : List SourceLine}
    (h : cutBlock depth ls = (body, none)) : body = ls := by
  induction ls generalizing depth body with
  | nil => exact (Prod.mk.inj h).1.symm
  | cons l r ih =>
    rcases cutBlock_cons depth l with ⟨rfl, hc⟩ | ⟨d, hd⟩
    · rw [cutBlock_zero_cons_of_closes hc] at h
      cases h
    · rw [← Nat.zero_add depth, hd] at h
      obtain ⟨hbody, hstop⟩ := Prod.mk.inj h
      have hr : (cutBlock (0 + d) r).1 = r := ih (Prod.ext rfl hstop)
      rw [← hbody, hr]

theorem count_of_cutBlock {depth : Nat} {ls body : List SourceLine} {e : BlockEnd}
    (h : cutBlock depth ls = (body, some e)) : e.count = e.line.suffix?.map String.ofList := by
  induction ls generalizing depth body with
  | nil => cases h
  | cons l r ih =>
    rcases cutBlock_cons depth l with ⟨rfl, hc⟩ | ⟨d, hd⟩
    · rw [cutBlock_zero_cons_of_closes hc] at h
      cases h
      rfl
    · rw [← Nat.zero_add depth, hd] at h
      exact ih (Prod.ext rfl (Prod.mk.inj h).2)

/-- Where a block ends does not depend on the lines behind. -/
theorem cutBlock_append_rest {depth : Nat} {ls body : List SourceLine} {e : BlockEnd}
    (h : cutBlock depth ls = (body, some e)) (rest : List SourceLine) :
    cutBlock depth (body ++ e.line :: rest) = (body, some { e with rest := rest }) := by
  induction ls generalizing depth body with
  | nil => cases h
  | cons l r ih =>
    rcases cutBlock_cons depth l with ⟨rfl, hc⟩ | ⟨d, hd⟩
    · rw [cutBlock_zero_cons_of_closes hc] at h
      cases h
      exact cutBlock_zero_cons_of_closes hc rest
    · rw [← Nat.zero_add depth, hd] at h
      obtain ⟨hbody, hstop⟩ := Prod.mk.inj h
      rw [← Nat.zero_add depth, ← hbody, List.cons_append, hd, ih (Prod.ext rfl hstop)]

/-- With another block open around, the lines go on behind the end of the inner one. -/
theorem cutBlock_one_add (depth : Nat) (ls : List SourceLine) :
    cutBlock (1 + depth) ls =
      match cutBlock depth ls with
      | (body, none) => (body, none)
      | (body, some e) => (body ++ e.line :: (cutBlock 0 e.rest).1, (cutBlock 0 e.rest).2) := by
  induction ls generalizing depth with
  | nil => rfl
  | cons l r ih =>
    rcases cutBlock_cons depth l with ⟨rfl, hc⟩ | ⟨d, hd⟩
    · rw [cutBlock_zero_cons_of_closes hc, Nat.add_zero, cutBlock_succ_cons_of_closes hc]
      rfl
    · have hd₀ := hd 0 r
      rw [Nat.zero_add, Nat.zero_add] at hd₀
      rw [hd, hd₀, ih d]
      rcases cutBlock d r with ⟨body, _ | e⟩ <;> rfl

/-! ### Progress -/

/-- A block that is open, and the instructions that stand before it in the block around. -/
structure OpenBlock where
  opening : SourceLine
  before : List Instruction

/-- The blocks that are open, the innermost first, and the instructions given so far in it. -/
structure Progress where
  blocks : List OpenBlock
  given : List Instruction

namespace Progress

def start : Progress := ⟨[], []⟩

def add (pr : Progress) (more : List Instruction) : Progress :=
  { pr with given := pr.given ++ more }

/-- Takes up one line. -/
def take (s : Scope) (inclusion : SourceLine → String → Except ParseError (List Instruction))
    (pr : Progress) (l : SourceLine) : Except ParseError Progress :=
  match l.meaning with
  | .blockOpen => .ok ⟨⟨l, pr.given⟩ :: pr.blocks, []⟩
  | .blockClose count =>
    match pr.blocks with
    | [] => .error (.unexpectedClose (s.locate l))
    | b :: outer => do
      let n ← blockCount (s.locate l) count
      let all ← repeatBlock (s.locate l) n pr.given
      return ⟨outer, b.before ++ all⟩
  | _ => do
    let here ← ofLine s inclusion l
    return pr.add here

/-- The instructions of a file when no line is left. -/
def finish (s : Scope) (pr : Progress) : Except ParseError (List Instruction) :=
  match pr.blocks with
  | [] => .ok pr.given
  | b :: _ => .error (.neverClosed (s.locate b.opening))

theorem add_nil (pr : Progress) : pr.add [] = pr := by simp [add]

theorem add_add (pr : Progress) (is js : List Instruction) :
    (pr.add is).add js = pr.add (is ++ js) := by simp [add]

end Progress

section

variable (s : Scope) (inclusion : SourceLine → String → Except ParseError (List Instruction))

/-- Takes up lines one after another. -/
def scan (pr : Progress) : List SourceLine → Except ParseError (List Instruction)
  | [] => pr.finish s
  | l :: r => do
    let pr ← pr.take s inclusion l
    scan pr r

end

section

variable {s : Scope} {inclusion : SourceLine → String → Except ParseError (List Instruction)}

theorem Progress.take_of_not_mark {l : SourceLine} (h : ¬ l.Opens ∧ ¬ l.Closes) (pr : Progress) :
    pr.take s inclusion l = (do
      let here ← ofLine s inclusion l
      return pr.add here) := by
  rw [take]
  rcases l.kind with ho | hc | hn | hs
  · exact absurd ho h.1
  · exact absurd hc h.2
  · rcases SourceLine.meaning_of_isNote hn with hm | ⟨target, hm⟩ <;> rw [hm]
  · rw [SourceLine.meaning_of_isStep hs]

theorem Progress.take_of_opens {l : SourceLine} (h : l.Opens) (pr : Progress) :
    pr.take s inclusion l = .ok ⟨⟨l, pr.given⟩ :: pr.blocks, []⟩ := by
  rw [take, SourceLine.meaning_of_opens h]

theorem Progress.take_of_closes {l : SourceLine} (h : l.Closes) (pr : Progress) :
    pr.take s inclusion l =
      match pr.blocks with
      | [] => .error (.unexpectedClose (s.locate l))
      | b :: outer => do
        let n ← blockCount (s.locate l) (l.suffix?.map String.ofList)
        let all ← repeatBlock (s.locate l) n pr.given
        return ⟨outer, b.before ++ all⟩ := by
  rw [take, SourceLine.meaning_of_closes h]

/-! ### Scanning is flattening -/

theorem cutBlock_cons_of_opens_of_none {l : SourceLine} (h : l.Opens) {r body : List SourceLine}
    (hcut : cutBlock 0 r = (body, none)) : cutBlock 0 (l :: r) = (l :: r, none) := by
  rw [cutBlock_cons_of_opens h, Nat.zero_add, ← Nat.add_zero 1, cutBlock_one_add, hcut,
    eq_of_cutBlock_none hcut]

theorem cutBlock_cons_of_opens_of_some {l : SourceLine} (h : l.Opens) {r body : List SourceLine}
    {e : BlockEnd} (hcut : cutBlock 0 r = (body, some e)) :
    cutBlock 0 (l :: r) =
      (l :: (body ++ e.line :: (cutBlock 0 e.rest).1), (cutBlock 0 e.rest).2) := by
  rw [cutBlock_cons_of_opens h, Nat.zero_add, ← Nat.add_zero 1, cutBlock_one_add, hcut]

/-- A block and the lines behind it up to some point. -/
theorem flatten_cons_of_cut_append {l : SourceLine} (h : l.Opens) {r body : List SourceLine}
    {e : BlockEnd} (hcut : cutBlock 0 r = (body, some e)) (rest : List SourceLine) :
    flatten s inclusion (l :: (body ++ e.line :: rest)) = (do
      let once ← flatten s inclusion body
      let count ← blockCount (s.locate e.line) e.count
      let all ← repeatBlock (s.locate e.line) count once
      let more ← flatten s inclusion rest
      return all ++ more) :=
  flatten_cons_of_cut h (cutBlock_append_rest hcut rest)

/-- A closing line without a block is met behind the lines before it. -/
theorem flatten_of_cutBlock {ls body : List SourceLine} {e : BlockEnd}
    (h : cutBlock 0 ls = (body, some e)) :
    flatten s inclusion ls = (do
      let _ ← flatten s inclusion body
      .error (.unexpectedClose (s.locate e.line))) := by
  induction hn : ls.length using Nat.strongRecOn generalizing ls body with
  | _ n ih =>
    cases ls with
    | nil => cases h
    | cons l r =>
      rw [List.length_cons] at hn
      by_cases ho : l.Opens
      · obtain ⟨-, hlt⟩ := cutBlock_length 0 r
        rcases hcut : cutBlock 0 r with ⟨inner, _ | e'⟩
        · rw [cutBlock_cons_of_opens_of_none ho hcut] at h
          cases h
        · rw [hcut] at hlt
          have hlen := hlt e' rfl
          rw [cutBlock_cons_of_opens_of_some ho hcut] at h
          obtain ⟨rfl, hstop⟩ := Prod.mk.inj h
          rw [flatten_cons_of_cut ho hcut, flatten_cons_of_cut_append ho hcut,
            ih e'.rest.length (by omega) (Prod.ext rfl hstop) rfl]
          simp only [bind_assoc, pure_bind]
          rfl
      · by_cases hc : l.Closes
        · rw [cutBlock_zero_cons_of_closes hc] at h
          cases h
          rw [flatten_cons_of_closes hc, flatten]
          rfl
        · rw [cutBlock_cons_of_not_mark ⟨ho, hc⟩] at h
          obtain ⟨rfl, hstop⟩ := Prod.mk.inj h
          rw [flatten_cons_of_not_mark ⟨ho, hc⟩, flatten_cons_of_not_mark ⟨ho, hc⟩,
            ih r.length (by omega) (Prod.ext rfl hstop) rfl]
          simp only [bind_assoc, pure_bind]
          rfl

/-- Scanning reads up to the end of the block it is in, and goes on from there. -/
theorem scan_eq (pr : Progress) (ls : List SourceLine) :
    scan s inclusion pr ls = (do
      let here ← flatten s inclusion (cutBlock 0 ls).1
      match (cutBlock 0 ls).2 with
      | none => (pr.add here).finish s
      | some e => scan s inclusion (pr.add here) (e.line :: e.rest)) := by
  induction hn : ls.length using Nat.strongRecOn generalizing ls pr with
  | _ n ih =>
    cases ls with
    | nil =>
      rw [scan, cutBlock, flatten]
      exact congrArg _ pr.add_nil.symm
    | cons l r =>
      rw [List.length_cons] at hn
      by_cases ho : l.Opens
      · obtain ⟨-, hlt⟩ := cutBlock_length 0 r
        rw [scan, Progress.take_of_opens ho]
        change scan s inclusion _ r = _
        rw [ih r.length (by omega) _ _ rfl]
        rcases hcut : cutBlock 0 r with ⟨inner, _ | e⟩
        · rw [cutBlock_cons_of_opens_of_none ho hcut, eq_of_cutBlock_none hcut,
            flatten_cons_of_uncut ho hcut, eq_of_cutBlock_none hcut]
          simp only [bind_assoc]
          rfl
        · rw [cutBlock_cons_of_opens_of_some ho hcut]
          have hcloses := (eq_append_of_cutBlock hcut).2
          have hlen := hlt e (by rw [hcut])
          -- The block ends, and its instructions join those around it.
          have hend : ∀ once, scan s inclusion
              ((⟨⟨l, pr.given⟩ :: pr.blocks, []⟩ : Progress).add once) (e.line :: e.rest) = (do
                let n ← blockCount (s.locate e.line) e.count
                let all ← repeatBlock (s.locate e.line) n once
                scan s inclusion (pr.add all) e.rest) := fun once => by
            rw [scan, Progress.take_of_closes hcloses, count_of_cutBlock hcut]
            simp only [Progress.add, List.nil_append, bind_assoc, pure_bind]
          dsimp only
          rw [flatten_cons_of_cut_append ho hcut]
          simp only [hend, ih e.rest.length (by omega) _ _ rfl, bind_assoc, pure_bind,
            Progress.add_add]
      · by_cases hc : l.Closes
        · rw [cutBlock_zero_cons_of_closes hc, flatten]
          exact congrArg (scan s inclusion · (l :: r)) pr.add_nil.symm
        · rw [cutBlock_cons_of_not_mark ⟨ho, hc⟩, scan, Progress.take_of_not_mark ⟨ho, hc⟩,
            flatten_cons_of_not_mark ⟨ho, hc⟩]
          simp only [bind_assoc, pure_bind, ih r.length (by omega) _ _ rfl, Progress.add_add]

theorem flatten_eq_scan (ls : List SourceLine) :
    flatten s inclusion ls = scan s inclusion .start ls := by
  rw [scan_eq]
  rcases hcut : cutBlock 0 ls with ⟨body, _ | e⟩
  · rw [eq_of_cutBlock_none hcut]
    exact (bind_pure _).symm
  · rw [flatten_of_cutBlock hcut]
    simp only [scan, Progress.take_of_closes (eq_append_of_cutBlock hcut).2]
    rfl

end

end StepRunner.RunFile
