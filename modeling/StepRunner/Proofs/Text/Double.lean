import Mathlib.Data.List.Infix
import StepRunner.Proofs.Text.Split

/-!
# Texts cut at doubled characters

A text is cut wherever a character stands twice in a row, from the left: of three in a row the third
belongs to the piece behind (`CutAtDoubles`). That is one way of cutting a text and the one that
`splitDouble` finds (`splitDouble_eq_iff`), so pieces that are joined are found again.
`beforeDouble` is the first of the pieces (`beforeDouble_eq_iff`).
-/

namespace StepRunner.Text

variable {d : Char} {cs p : List Char} {ps : List (List Char)}

/-- The character does not stand twice in a row. -/
def Single (d : Char) (cs : List Char) : Prop := ¬ [d, d] <:+: cs

instance (d : Char) (cs : List Char) : Decidable (Single d cs) := inferInstanceAs (Decidable (¬ _))

structure CutAtDoubles (d : Char) (cs : List Char) (ps : List (List Char)) : Prop where
  ne_nil : ps ≠ []
  joined : [d, d].intercalate ps = cs
  single : ∀ p ∈ ps, Single d p
  ends : ∀ p ∈ ps.dropLast, p.getLast? ≠ some d

theorem single_cons_iff {a b : Char} {r : List Char} :
    Single d (a :: b :: r) ↔ ¬ (a = d ∧ b = d) ∧ Single d (b :: r) := by
  unfold Single
  rw [List.infix_cons_iff, not_or, List.cons_prefix_cons, List.cons_prefix_cons]
  simp only [List.nil_prefix, and_true, eq_comm]

theorem single_of_length_le (h : cs.length ≤ 1) : Single d cs := fun hinfix => by
  have hlen := hinfix.length_le
  simp only [List.length_cons, List.length_nil] at hlen
  omega

/-! ### Cutting finds the pieces -/

theorem splitDouble_of_single (h : Single d cs) : splitDouble d cs = [cs] := by
  fun_induction splitDouble d cs with
  | case1 => rfl
  | case2 c => rfl
  | case3 a b r hab => exact absurd hab (single_cons_iff.mp h).1
  | case4 a b r hab ih => rw [ih (single_cons_iff.mp h).2, List.modifyHead_cons]

theorem splitDouble_append (h : Single d p) (hend : p.getLast? ≠ some d) (r : List Char) :
    splitDouble d (p ++ d :: d :: r) = p :: splitDouble d r := by
  induction p with
  | nil => rw [List.nil_append, splitDouble, if_pos ⟨rfl, rfl⟩]
  | cons a p ih =>
    cases p with
    | nil =>
      have ha : a ≠ d := fun ha => hend (by rw [ha]; rfl)
      rw [List.cons_append, List.nil_append, splitDouble, if_neg fun h => ha h.1, splitDouble,
        if_pos ⟨rfl, rfl⟩, List.modifyHead_cons]
    | cons b p =>
      obtain ⟨hab, hsingle⟩ := single_cons_iff.mp h
      rw [List.cons_append, List.cons_append, splitDouble, if_neg hab, ← List.cons_append,
        ih hsingle (by rwa [List.getLast?_cons_cons] at hend), List.modifyHead_cons]

theorem CutAtDoubles.splitDouble_eq (h : CutAtDoubles d cs ps) : splitDouble d cs = ps := by
  obtain ⟨hne, rfl, hsingle, hends⟩ := h
  induction ps with
  | nil => exact absurd rfl hne
  | cons p ps ih =>
    have hp := hsingle p List.mem_cons_self
    cases ps with
    | nil => rw [List.intercalate_singleton, splitDouble_of_single hp]
    | cons q qs =>
      rw [List.dropLast_cons_of_ne_nil (List.cons_ne_nil q qs), List.forall_mem_cons] at hends
      rw [List.intercalate_cons_cons, List.append_assoc, List.cons_append, List.cons_append,
        List.nil_append, splitDouble_append hp hends.1, ih (List.cons_ne_nil q qs)
          (fun p hp => hsingle p (List.mem_cons_of_mem _ hp)) hends.2]

/-! ### What is found is a cut -/

/-- Where a text goes on with a character, the first of its pieces does, or it is empty and the
text goes on with the doubled one. -/
theorem CutAtDoubles.head_eq {b : Char} {r q : List Char} {qs : List (List Char)}
    (h : CutAtDoubles d (b :: r) (q :: qs)) :
    (∃ q', q = b :: q') ∨ q = [] ∧ qs ≠ [] ∧ b = d := by
  have hjoined := h.joined
  cases q with
  | cons c q' =>
    rw [cons_intercalate] at hjoined
    exact .inl ⟨q', by rw [(List.cons.inj hjoined).1]⟩
  | nil =>
    cases qs with
    | nil => cases hjoined
    | cons q' qs =>
      rw [List.intercalate_cons_cons, List.nil_append, List.cons_append] at hjoined
      exact .inr ⟨rfl, List.cons_ne_nil q' qs, (List.cons.inj hjoined).1.symm⟩

theorem CutAtDoubles.cons {a b : Char} {r q : List Char} {qs : List (List Char)}
    (h : CutAtDoubles d (b :: r) (q :: qs)) (hab : ¬ (a = d ∧ b = d)) :
    CutAtDoubles d (a :: b :: r) ((a :: q) :: qs) := by
  refine ⟨List.cons_ne_nil _ _, by rw [cons_intercalate, h.joined], ?_, ?_⟩
  · have hsingle := h.single
    rw [List.forall_mem_cons] at hsingle ⊢
    refine ⟨?_, hsingle.2⟩
    rcases h.head_eq with ⟨q', rfl⟩ | ⟨rfl, -, -⟩
    · exact single_cons_iff.mpr ⟨hab, hsingle.1⟩
    · exact single_of_length_le (Nat.le_refl 1)
  · have hends := h.ends
    cases qs with
    | nil => exact fun p hp => absurd hp List.not_mem_nil
    | cons q₂ qs =>
      rw [List.dropLast_cons_of_ne_nil (List.cons_ne_nil q₂ qs), List.forall_mem_cons] at hends ⊢
      refine ⟨?_, hends.2⟩
      rcases h.head_eq with ⟨q', rfl⟩ | ⟨rfl, -, hb⟩
      · rw [List.getLast?_cons_cons]
        exact hends.1
      · rintro ⟨⟩
        exact hab ⟨rfl, hb⟩

theorem cutAtDoubles_splitDouble (d : Char) (cs : List Char) :
    CutAtDoubles d cs (splitDouble d cs) := by
  fun_induction splitDouble d cs with
  | case1 =>
    exact ⟨List.cons_ne_nil _ _, rfl, by simp [single_of_length_le], by simp⟩
  | case2 c =>
    exact ⟨List.cons_ne_nil _ _, rfl, by simp [single_of_length_le], by simp⟩
  | case3 a b r hab ih =>
    obtain ⟨rfl, rfl⟩ := hab
    obtain ⟨p, ps, hps⟩ := List.exists_cons_of_ne_nil ih.ne_nil
    rw [hps] at ih ⊢
    refine ⟨List.cons_ne_nil _ _, ?_, ?_, ?_⟩
    · rw [List.intercalate_cons_cons, ih.joined]
      rfl
    · rw [List.forall_mem_cons]
      exact ⟨single_of_length_le (Nat.zero_le 1), ih.single⟩
    · rw [List.dropLast_cons_of_ne_nil (List.cons_ne_nil p ps), List.forall_mem_cons]
      exact ⟨by simp only [List.getLast?_nil, ne_eq, reduceCtorEq, not_false_eq_true], ih.ends⟩
  | case4 a b r hab ih =>
    obtain ⟨q, qs, hqs⟩ := List.exists_cons_of_ne_nil ih.ne_nil
    rw [hqs] at ih ⊢
    exact ih.cons hab

theorem splitDouble_eq_iff : splitDouble d cs = ps ↔ CutAtDoubles d cs ps :=
  ⟨fun h => h ▸ cutAtDoubles_splitDouble d cs, CutAtDoubles.splitDouble_eq⟩

/-! ### The first piece -/

theorem head?_splitDouble (d : Char) (cs : List Char) :
    (splitDouble d cs).head? = some (beforeDouble d cs) := by
  fun_induction splitDouble d cs with
  | case1 | case2 => rfl
  | case3 a b r h => rw [beforeDouble, if_pos h, List.head?_cons]
  | case4 a b r h ih => rw [beforeDouble, if_neg h, List.head?_modifyHead, ih, Option.map_some]

theorem beforeDouble_eq_iff : beforeDouble d cs = p ↔ ∃ ps, CutAtDoubles d cs (p :: ps) := by
  simp only [← splitDouble_eq_iff, ← List.head?_eq_some_iff, head?_splitDouble, Option.some.injEq]

theorem beforeDouble_of_single (h : Single d cs) : beforeDouble d cs = cs := by
  rw [← Option.some.injEq, ← head?_splitDouble, splitDouble_of_single h, List.head?_cons]

theorem beforeDouble_append (h : Single d p) (hend : p.getLast? ≠ some d) (r : List Char) :
    beforeDouble d (p ++ d :: d :: r) = p := by
  rw [← Option.some.injEq, ← head?_splitDouble, splitDouble_append h hend, List.head?_cons]

/-! ### Texts around a text -/

theorem single_append_left {front : List Char} (h : d ∉ front) :
    Single d (front ++ cs) ↔ Single d cs := by
  induction front with
  | nil => rw [List.nil_append]
  | cons a front ih =>
    rw [List.mem_cons, not_or] at h
    unfold Single at ih ⊢
    rw [List.cons_append, List.infix_cons_iff, List.cons_prefix_cons, ← ih h.2]
    simp only [h.1, false_and, false_or]

theorem single_reverse : Single d cs.reverse ↔ Single d cs := by
  unfold Single
  rw [← List.reverse_infix, List.reverse_reverse]
  rfl

theorem single_append_right {back : List Char} (h : d ∉ back) :
    Single d (cs ++ back) ↔ Single d cs := by
  rw [← single_reverse, List.reverse_append,
    single_append_left (fun hd => h (List.mem_reverse.mp hd)), single_reverse]

theorem single_of_append_singleton (h : Single d (p ++ [d])) :
    Single d p ∧ p.getLast? ≠ some d := by
  refine ⟨fun hp => h (hp.trans (List.prefix_append p [d]).isInfix), fun hlast => ?_⟩
  obtain ⟨q, rfl⟩ := List.getLast?_eq_some_iff.mp hlast
  exact h ⟨q, [], by rw [List.append_nil, List.append_assoc, List.singleton_append]⟩

end StepRunner.Text
