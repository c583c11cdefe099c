import StepRunner.Text.Units

/-!
# Reading units back

Encoded texts are decoded to what they were: the two halves of a pair are found again, and no other
unit of a text looks like one of them (`decodeUnits_encodeUnits`).
-/

namespace StepRunner.Text

theorem decodeUnits_cons {u : UInt16} (h : isHighSurrogate u = false) (r : List UInt16) :
    decodeUnits (u :: r) = ofUnit u :: decodeUnits r := by
  cases r with
  | nil => rw [decodeUnits, decodeUnits]
  | cons v r => rw [decodeUnits, h, Bool.false_and, if_neg Bool.false_ne_true]

theorem decodeUnits_pair {hi lo : UInt16} (hhi : isHighSurrogate hi = true)
    (hlo : isLowSurrogate lo = true) (r : List UInt16) :
    decodeUnits (hi :: lo :: r) = ofPair hi lo :: decodeUnits r := by
  rw [decodeUnits, hhi, hlo, Bool.and_self, if_pos rfl]

theorem isHighSurrogate_iff {u : UInt16} :
    isHighSurrogate u = true ↔ 0xD800 ≤ u.toNat ∧ u.toNat < 0xDC00 := by
  simp only [isHighSurrogate, Bool.and_eq_true, decide_eq_true_eq, UInt16.le_iff_toNat_le,
    UInt16.lt_iff_toNat_lt]
  exact Iff.rfl

theorem isLowSurrogate_iff {u : UInt16} :
    isLowSurrogate u = true ↔ 0xDC00 ≤ u.toNat ∧ u.toNat < 0xE000 := by
  simp only [isLowSurrogate, Bool.and_eq_true, decide_eq_true_eq, UInt16.le_iff_toNat_le,
    UInt16.lt_iff_toNat_lt]
  exact Iff.rfl

theorem toNat_toUInt16 {n : Nat} (h : n < 0x10000) : n.toUInt16.toNat = n :=
  UInt16.toNat_ofNat_of_lt' h

/-- The numbers of characters leave out those of the halves of pairs. -/
theorem toNat_valid (c : Char) :
    c.toNat < 0xD800 ∨ 0xDFFF < c.toNat ∧ c.toNat < 0x110000 := by
  rcases c.valid with h | h
  · exact .inl h
  · exact .inr h

theorem decodeUnits_unitsOf (c : Char) (r : List UInt16) :
    decodeUnits (unitsOf c ++ r) = c :: decodeUnits r := by
  have hvalid := toNat_valid c
  unfold unitsOf
  split
  · next hsmall =>
    have hunit := toNat_toUInt16 hsmall
    have hhigh : isHighSurrogate c.toNat.toUInt16 = false := by
      rw [Bool.eq_false_iff, ne_eq, isHighSurrogate_iff, hunit]
      omega
    have hlow : isLowSurrogate c.toNat.toUInt16 = false := by
      rw [Bool.eq_false_iff, ne_eq, isLowSurrogate_iff, hunit]
      omega
    rw [List.singleton_append, decodeUnits_cons hhigh, ofUnit, hhigh, hlow, Bool.or_self,
      if_neg Bool.false_ne_true, hunit, Char.ofNat_toNat]
  · next hlarge =>
    -- The number behind the first 0x10000 has twenty bits, of which each half holds ten.
    have hhalves := Nat.div_add_mod (c.toNat - 0x10000) 0x400
    have hlt : (c.toNat - 0x10000) % 0x400 < 0x400 := Nat.mod_lt _ (by omega)
    have hhi := toNat_toUInt16 (n := 0xD800 + (c.toNat - 0x10000) / 0x400) (by omega)
    have hlo := toNat_toUInt16 (n := 0xDC00 + (c.toNat - 0x10000) % 0x400) (by omega)
    have hhigh : isHighSurrogate (0xD800 + (c.toNat - 0x10000) / 0x400).toUInt16 = true := by
      rw [isHighSurrogate_iff, hhi]
      omega
    have hlow : isLowSurrogate (0xDC00 + (c.toNat - 0x10000) % 0x400).toUInt16 = true := by
      rw [isLowSurrogate_iff, hlo]
      omega
    have hsum : 0x10000 + (0xD800 + (c.toNat - 0x10000) / 0x400 - 0xD800) * 0x400 +
        (0xDC00 + (c.toNat - 0x10000) % 0x400 - 0xDC00) = c.toNat := by
      omega
    rw [List.cons_append, List.singleton_append, decodeUnits_pair hhigh hlow, ofPair, hhi, hlo,
      hsum, Char.ofNat_toNat]

theorem decodeUnits_encodeUnits (cs : List Char) : decodeUnits (encodeUnits cs) = cs := by
  induction cs with
  | nil => rfl
  | cons c cs ih => rw [encodeUnits, List.flatMap_cons, decodeUnits_unitsOf, ← encodeUnits, ih]

end StepRunner.Text
