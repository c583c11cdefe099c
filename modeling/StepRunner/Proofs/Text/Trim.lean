import Mathlib.Data.List.DropRight
import StepRunner.Proofs.Text.Line

/-!
# Blanks around a text

`Trimmed` texts are those that trimming leaves as they are. A trimmed text is found again between
blanks (`trim_of_spaced`).
-/

namespace StepRunner.Text

variable {cs written : List Char}

/-- No blank stands at either end. -/
structure Trimmed (cs : List Char) : Prop where
  head : ∀ c, cs.head? = some c → isBlank c = false
  getLast : ∀ c, cs.getLast? = some c → isBlank c = false

/-- A text as it is written, with blanks around it. -/
def Spaced (cs written : List Char) : Prop :=
  ∃ front back, (∀ c ∈ front, isBlank c) ∧ (∀ c ∈ back, isBlank c) ∧ written = front ++ cs ++ back

theorem isBlank_eq_false_of_isDigit {c : Char} (h : c.isDigit) : isBlank c = false := by
  have hrange : 48 ≤ c.toNat ∧ c.toNat ≤ 57 := by
    simp only [Char.isDigit, Bool.and_eq_true, decide_eq_true_eq] at h
    exact h
  rw [Bool.eq_false_iff]
  intro hblank
  simp only [isBlank, blankRanges, List.any_cons, List.any_nil, Bool.or_false, Bool.or_eq_true,
    Bool.and_eq_true, decide_eq_true_eq] at hblank
  omega

theorem exists_blanks_trimStart (cs : List Char) :
    ∃ blanks, (∀ c ∈ blanks, isBlank c) ∧ cs = blanks ++ trimStart cs :=
  ⟨cs.takeWhile isBlank, fun _ hc => List.mem_takeWhile_imp hc,
    List.takeWhile_append_dropWhile.symm⟩

theorem trimStart_eq_self (h : ∀ c, cs.head? = some c → isBlank c = false) : trimStart cs = cs := by
  cases cs with
  | nil => rfl
  | cons c r => exact List.dropWhile_cons_of_neg (by rw [h c rfl]; decide)

theorem trimEnd_eq_self (h : ∀ c, cs.getLast? = some c → isBlank c = false) : trimEnd cs = cs :=
  List.rdropWhile_eq_self_iff.mpr fun hne =>
    Bool.eq_false_iff.mp (h _ (List.getLast?_eq_some_getLast hne))

theorem trim_trimmed (cs : List Char) : Trimmed (trim cs) :=
  ⟨fun _ => not_isBlank_of_head?_trim, fun _ => not_isBlank_of_getLast?_trim⟩

theorem trimStart_blanks_append {blanks : List Char} (h : ∀ c ∈ blanks, isBlank c)
    (cs : List Char) : trimStart (blanks ++ cs) = trimStart cs :=
  List.dropWhile_append_of_pos h

theorem trimEnd_append_blanks {blanks : List Char} (h : ∀ c ∈ blanks, isBlank c)
    (cs : List Char) : trimEnd (cs ++ blanks) = trimEnd cs := by
  unfold trimEnd
  rw [List.reverse_append, List.dropWhile_append_of_pos fun c hc => h c (List.mem_reverse.mp hc)]

theorem trim_blanks_append {blanks : List Char} (h : ∀ c ∈ blanks, isBlank c) (cs : List Char) :
    trim (blanks ++ cs) = trim cs :=
  congrArg trimEnd (trimStart_blanks_append h cs)

theorem length_trim_le (cs : List Char) : (trim cs).length ≤ cs.length := by
  have hlen := congrArg List.length (takeWhile_trim_append cs)
  rw [List.length_append, List.length_append] at hlen
  omega

theorem trim_of_spaced (hcs : Trimmed cs) (h : Spaced cs written) : trim written = cs := by
  obtain ⟨front, back, hfront, hback, rfl⟩ := h
  unfold trim
  rw [List.append_assoc, trimStart_blanks_append hfront]
  cases cs with
  | nil =>
    rw [List.nil_append, ← List.append_nil back, trimStart_blanks_append hback]
    rfl
  | cons c r =>
    rw [trimStart_eq_self fun d hd => hcs.head d (by rwa [List.cons_append] at hd),
      trimEnd_append_blanks hback, trimEnd_eq_self hcs.getLast]

theorem not_mem_of_spaced {c : Char} (hblank : isBlank c = false) (hc : c ∉ cs)
    (h : Spaced cs written) : c ∉ written := by
  obtain ⟨front, back, hfront, hback, rfl⟩ := h
  simp only [List.mem_append, not_or]
  refine ⟨⟨fun hmem => ?_, hc⟩, fun hmem => ?_⟩
  · rw [hfront c hmem] at hblank
    cases hblank
  · rw [hback c hmem] at hblank
    cases hblank

end StepRunner.Text
