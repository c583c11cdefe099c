import StepRunner.Text.Numeral

/-!
# What a numeral denotes

`IsNumeral cs` says that `cs` is an unsigned decimal, `numeralValue cs` is its value over the
natural numbers. Reading below a bound finds exactly the numerals whose value is below it, so a
value never wraps around.
-/

namespace StepRunner.Text

/-- A text without the `+` it may start with. -/
def unsigned : List Char → List Char
  | '+' :: r => r
  | cs => cs

/-- The value of digits that follow the value `acc`. -/
def digitsValue (acc : Nat) (ds : List Char) : Nat :=
  ds.foldl (fun n c => 10 * n + digitValue c) acc

/-- Digits, at least one, with one optional `+` in front. -/
def IsNumeral (cs : List Char) : Prop := unsigned cs ≠ [] ∧ ∀ c ∈ unsigned cs, c.isDigit

instance (cs : List Char) : Decidable (IsNumeral cs) :=
  decidable_of_iff (unsigned cs ≠ [] ∧ (unsigned cs).all Char.isDigit) (by simp [IsNumeral])

def numeralValue (cs : List Char) : Nat := digitsValue 0 (unsigned cs)

theorem le_digitsValue (acc : Nat) (ds : List Char) : acc ≤ digitsValue acc ds := by
  induction ds generalizing acc with
  | nil => exact Nat.le_refl acc
  | cons c r ih =>
    have h := ih (10 * acc + digitValue c)
    simp only [digitsValue, List.foldl_cons] at h ⊢
    omega

/-- Reading digits gives their value, unless it or one on the way reaches the bound. Values only
grow, so the last one decides. -/
theorem readDigits_eq_ok_iff {bound acc n : Nat} {cs : List Char} (h : acc < bound) :
    readDigits bound acc cs = .ok n ↔
      (∀ c ∈ cs, c.isDigit) ∧ digitsValue acc cs = n ∧ n < bound := by
  induction cs generalizing acc with
  | nil =>
    simp only [readDigits, digitsValue, List.foldl_nil, Except.ok.injEq]
    constructor
    · rintro rfl
      exact ⟨by simp, rfl, h⟩
    · rintro ⟨_, rfl, _⟩
      rfl
  | cons c r ih =>
    have hstep : digitsValue acc (c :: r) = digitsValue (10 * acc + digitValue c) r := rfl
    rw [readDigits, List.forall_mem_cons, hstep]
    split
    · next hc =>
      split
      · next hlt => rw [ih hlt]; simp [hc]
      · next hge =>
        have hle := le_digitsValue (10 * acc + digitValue c) r
        constructor
        · intro he; cases he
        · rintro ⟨_, rfl, hn⟩; omega
    · next hc =>
      constructor
      · intro he; cases he
      · rintro ⟨⟨hd, _⟩, _⟩; exact absurd hd hc

theorem readNumeral_eq_readDigits {bound : Nat} {cs : List Char} (h : unsigned cs ≠ []) :
    readNumeral bound cs = readDigits bound 0 (unsigned cs) := by
  unfold readNumeral
  split
  · exact absurd rfl h
  · exact absurd rfl h
  · rfl
  · next hplus => rw [unsigned]; exact fun r hr => hplus r hr

theorem readNumeral_eq_ok_iff {bound n : Nat} {cs : List Char} (h : 0 < bound) :
    readNumeral bound cs = .ok n ↔ IsNumeral cs ∧ numeralValue cs = n ∧ n < bound := by
  by_cases hne : unsigned cs = []
  · have hcs : cs = [] ∨ cs = ['+'] := by
      unfold unsigned at hne
      split at hne
      · exact .inr (by rw [hne])
      · exact .inl hne
    constructor
    · intro he
      rcases hcs with rfl | rfl <;> cases he
    · rintro ⟨⟨hn, _⟩, _⟩
      exact absurd hne hn
  · rw [readNumeral_eq_readDigits hne, readDigits_eq_ok_iff h, IsNumeral, numeralValue]
    simp only [ne_eq, hne, not_false_eq_true, true_and]

/-- A numeral is its digits with or without a `+`. -/
theorem IsNumeral.exists_sign {cs : List Char} (h : IsNumeral cs) :
    ∃ sign digits, cs = sign ++ digits ∧ (sign = [] ∨ sign = ['+']) ∧ digits ≠ [] ∧
      (∀ c ∈ digits, c.isDigit) ∧ numeralValue cs = digitsValue 0 digits := by
  have hsign : ∃ sign, (sign = [] ∨ sign = ['+']) ∧ cs = sign ++ unsigned cs := by
    unfold unsigned
    split
    · exact ⟨['+'], .inr rfl, rfl⟩
    · exact ⟨[], .inl rfl, rfl⟩
  obtain ⟨sign, hsign, hcs⟩ := hsign
  exact ⟨sign, unsigned cs, hcs, hsign, h.1, h.2, rfl⟩

/-! ### Numbers as they are written -/

theorem isDigit_of_mem_toString {n : Nat} {c : Char} (h : c ∈ (toString n).toList) : c.isDigit := by
  rw [Nat.toString_eq_ofList_toDigits, String.toList_ofList] at h
  exact Nat.isDigit_of_mem_toDigits (by decide) (by decide) h

theorem unsigned_toString (n : Nat) : unsigned (toString n).toList = (toString n).toList := by
  unfold unsigned
  split
  · next r hr =>
    have hplus : '+'.isDigit = true := isDigit_of_mem_toString (hr ▸ List.mem_cons_self)
    exact absurd hplus (by decide)
  · rfl

theorem isNumeral_toString (n : Nat) : IsNumeral (toString n).toList := by
  rw [IsNumeral, unsigned_toString]
  refine ⟨?_, fun c hc => isDigit_of_mem_toString hc⟩
  rw [Nat.toString_eq_ofList_toDigits, String.toList_ofList]
  exact Nat.toDigits_ne_nil

theorem numeralValue_toString (n : Nat) : numeralValue (toString n).toList = n := by
  rw [numeralValue, unsigned_toString, Nat.toString_eq_ofList_toDigits, String.toList_ofList]
  exact Nat.ofDigitChars_ten_toDigits

end StepRunner.Text
