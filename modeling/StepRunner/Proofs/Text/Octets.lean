import StepRunner.Text.Octets

/-!
# Newlines among octets

Only the byte of a newline is read as a newline. What is read from several bytes lies beyond the
characters of one byte, and what cannot be read shows as U+FFFD.
-/

namespace StepRunner.Text

theorem eq_of_ofNat_eq_newline {n : Nat} (h : Char.ofNat n = '\n') : n = 10 := by
  by_cases hn : n.isValidChar
  · have hof : Char.ofNat n = Char.ofNatAux n hn := dif_pos hn
    exact congrArg Char.toNat (hof.symm.trans h)
  · have hof : Char.ofNat n = '\x00' := dif_neg hn
    cases hof.symm.trans h

theorem joinBits_ne_newline {lead : Nat} {rest : List UInt8}
    (h : rest.foldl (fun n b => 64 * n + b.toNat % 64) lead ≠ 10) : joinBits lead rest ≠ '\n' :=
  fun heq => h (eq_of_ofNat_eq_newline heq)

theorem toNat_of_between {low high b : UInt8} (h : (low ≤ b && b < high) = true) :
    low.toNat ≤ b.toNat ∧ b.toNat < high.toNat := by
  rw [Bool.and_eq_true, decide_eq_true_eq, decide_eq_true_eq] at h
  exact ⟨UInt8.le_iff_toNat_le.mp h.1, UInt8.lt_iff_toNat_lt.mp h.2⟩

/-- Behind the lowest lead of three or of four bytes the second byte carries a high bit. -/
theorem le_bits_of_allowsSecond {lead b : UInt8} (h : allowsSecond lead b = true) :
    (lead.toNat = 0xE0 → 32 ≤ b.toNat % 64) ∧ (lead.toNat = 0xF0 → 16 ≤ b.toNat % 64) := by
  constructor
  · intro hlead
    obtain rfl : lead = 0xE0 := UInt8.toNat_inj.mp hlead
    have hb : 160 ≤ b.toNat ∧ b.toNat < 192 := toNat_of_between h
    omega
  · intro hlead
    obtain rfl : lead = 0xF0 := UInt8.toNat_inj.mp hlead
    have hb : 144 ≤ b.toNat ∧ b.toNat < 192 := toNat_of_between h
    omega

theorem decodeOne_ne_newline {b : UInt8} (hb : b ≠ 10) (r : List UInt8) :
    (decodeOne b r).1 ≠ '\n' := by
  have hreplacement : replacement ≠ '\n' := by decide
  fun_cases decodeOne b r
  case case1 => exact fun heq => hb (UInt8.toNat_inj.mp (eq_of_ofNat_eq_newline heq))
  case case2 hbetween c _ _ =>
    have hlead : 194 ≤ b.toNat ∧ b.toNat < 224 := toNat_of_between hbetween
    refine joinBits_ne_newline ?_
    simp only [List.foldl]
    omega
  case case6 hbetween c hsecond d _ _ =>
    have hlead : 224 ≤ b.toNat ∧ b.toNat < 240 := toNat_of_between hbetween
    have hbits := le_bits_of_allowsSecond (by simpa using hsecond)
    refine joinBits_ne_newline ?_
    simp only [List.foldl]
    omega
  case case12 hbetween c hsecond d _ e _ _ =>
    have hlead : 240 ≤ b.toNat ∧ b.toNat < 245 := toNat_of_between hbetween
    have hbits := le_bits_of_allowsSecond (by simpa using hsecond)
    refine joinBits_ne_newline ?_
    simp only [List.foldl]
    omega
  all_goals exact hreplacement

theorem newline_not_mem_decodeLossy {bs : List UInt8} (h : 10 ∉ bs) : '\n' ∉ decodeLossy bs := by
  induction bs using decodeLossy.induct with
  | case1 =>
    rw [decodeLossy]
    exact List.not_mem_nil
  | case2 b r ih =>
    rw [List.mem_cons, not_or] at h
    rw [decodeLossy, List.mem_cons, not_or]
    exact ⟨(decodeOne_ne_newline (Ne.symm h.1) r).symm,
      ih fun hmem => h.2 (List.mem_of_mem_drop hmem)⟩

end StepRunner.Text
