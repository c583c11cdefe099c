import StepRunner.Text.Split

/-!
# Pieces of a text

No piece of a text that is cut at a character holds it (`not_mem_of_mem_splitAt`), and pieces that
do not hold it are what their text is cut into again (`splitAt_intercalate`). So a text is cut in one
way (`splitAt_eq_iff`).
-/

namespace StepRunner.Text

variable {sep : Char}

theorem splitAt_cons_of_ne {c : Char} (h : c ≠ sep) (r : List Char) :
    ∃ p ps, splitAt sep r = p :: ps ∧ splitAt sep (c :: r) = (c :: p) :: ps := by
  cases hs : splitAt sep r with
  | nil => exact absurd hs (splitAt_ne_nil sep r)
  | cons p ps => exact ⟨p, ps, rfl, by rw [splitAt, if_neg h, hs, List.modifyHead_cons]⟩

theorem not_mem_of_mem_splitAt {cs p : List Char} (h : p ∈ splitAt sep cs) : sep ∉ p := by
  induction cs generalizing p with
  | nil =>
    rw [splitAt, List.mem_singleton] at h
    exact h ▸ List.not_mem_nil
  | cons c r ih =>
    by_cases hc : c = sep
    · rw [splitAt, if_pos hc] at h
      rcases List.mem_cons.mp h with rfl | h
      · exact List.not_mem_nil
      · exact ih h
    · obtain ⟨q, ps, hr, hcons⟩ := splitAt_cons_of_ne hc r
      rw [hr] at ih
      rw [hcons] at h
      rcases List.mem_cons.mp h with rfl | h
      · rw [List.mem_cons, not_or]
        exact ⟨Ne.symm hc, ih List.mem_cons_self⟩
      · exact ih (List.mem_cons_of_mem _ h)

theorem splitAt_append_cons {p : List Char} (h : sep ∉ p) (r : List Char) :
    splitAt sep (p ++ sep :: r) = p :: splitAt sep r := by
  induction p with
  | nil => rw [List.nil_append, splitAt, if_pos rfl]
  | cons c p ih =>
    rw [List.mem_cons, not_or] at h
    rw [List.cons_append, splitAt, if_neg (Ne.symm h.1), ih h.2, List.modifyHead_cons]

theorem splitAt_of_not_mem {p : List Char} (h : sep ∉ p) : splitAt sep p = [p] := by
  induction p with
  | nil => rfl
  | cons c p ih =>
    rw [List.mem_cons, not_or] at h
    rw [splitAt, if_neg (Ne.symm h.1), ih h.2, List.modifyHead_cons]

theorem splitAt_intercalate {ps : List (List Char)} (hne : ps ≠ []) (h : ∀ p ∈ ps, sep ∉ p) :
    splitAt sep ([sep].intercalate ps) = ps := by
  induction ps with
  | nil => exact absurd rfl hne
  | cons p ps ih =>
    have hp := h p List.mem_cons_self
    cases ps with
    | nil => rw [List.intercalate_singleton, splitAt_of_not_mem hp]
    | cons q ps =>
      rw [List.intercalate_cons_cons, List.append_assoc, List.singleton_append,
        splitAt_append_cons hp, ih (List.cons_ne_nil q ps)]
      exact fun p hp => h p (List.mem_cons_of_mem _ hp)

/-- A text and its pieces between the occurrences of `sep`. -/
structure CutAt (sep : Char) (cs : List Char) (ps : List (List Char)) : Prop where
  ne_nil : ps ≠ []
  joined : [sep].intercalate ps = cs
  plain : ∀ p ∈ ps, sep ∉ p

theorem cons_intercalate (sep : List Char) (c : Char) (p : List Char) (ps : List (List Char)) :
    sep.intercalate ((c :: p) :: ps) = c :: sep.intercalate (p :: ps) := by
  cases ps with
  | nil => simp only [List.intercalate_singleton]
  | cons q ps => simp only [List.intercalate_cons_cons, List.cons_append]

theorem not_mem_intercalate {c : Char} {mark : List Char} {ps : List (List Char)} (hmark : c ∉ mark)
    (h : ∀ p ∈ ps, c ∉ p) : c ∉ mark.intercalate ps := by
  induction ps with
  | nil => exact List.not_mem_nil
  | cons p ps ih =>
    obtain ⟨hp, hps⟩ := List.forall_mem_cons.mp h
    cases ps with
    | nil => rwa [List.intercalate_singleton]
    | cons q qs =>
      rw [List.intercalate_cons_cons, List.mem_append, List.mem_append, not_or, not_or]
      exact ⟨⟨hp, hmark⟩, ih hps⟩

theorem intercalate_splitAt (sep : Char) (cs : List Char) :
    [sep].intercalate (splitAt sep cs) = cs := by
  induction cs with
  | nil => rfl
  | cons c r ih =>
    by_cases hc : c = sep
    · obtain ⟨p, ps, hps⟩ := List.exists_cons_of_ne_nil (splitAt_ne_nil sep r)
      rw [splitAt, if_pos hc, hps, List.intercalate_cons_cons, ← hps, ih, hc]
      rfl
    · obtain ⟨p, ps, hr, hcons⟩ := splitAt_cons_of_ne hc r
      rw [hcons, cons_intercalate, ← hr, ih]

theorem splitAt_eq_iff {cs : List Char} {ps : List (List Char)} :
    splitAt sep cs = ps ↔ CutAt sep cs ps := by
  constructor
  · rintro rfl
    exact ⟨splitAt_ne_nil sep cs, intercalate_splitAt sep cs, fun _ => not_mem_of_mem_splitAt⟩
  · rintro ⟨hne, rfl, hplain⟩
    exact splitAt_intercalate hne hplain

end StepRunner.Text
