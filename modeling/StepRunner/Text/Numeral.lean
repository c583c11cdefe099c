import StepRunner.Text.Blank

/-!
# Unsigned numerals

Reading a bounded unsigned decimal: digits with one optional `+` in front. The text is read from
the left, so a numeral that grows too large is refused before a bad character behind it.
-/

namespace StepRunner.Text

inductive NumeralError where
  | empty
  | invalidDigit
  | tooLarge
  deriving DecidableEq, Repr

def NumeralError.message : NumeralError → String
  | .empty => "cannot parse integer from empty string"
  | .invalidDigit => "invalid digit found in string"
  | .tooLarge => "number too large to fit in target type"

def digitValue (c : Char) : Nat := c.toNat - '0'.toNat

/-- Digits after a value `acc`, as long as the value stays below `bound`. -/
def readDigits (bound acc : Nat) : List Char → Except NumeralError Nat
  | [] => .ok acc
  | c :: r =>
    if c.isDigit then
      if 10 * acc + digitValue c < bound then readDigits bound (10 * acc + digitValue c) r
      else .error .tooLarge
    else .error .invalidDigit

/-- An unsigned decimal below `bound`. -/
def readNumeral (bound : Nat) : List Char → Except NumeralError Nat
  | [] => .error .empty
  | ['+'] => .error .invalidDigit
  | '+' :: r => readDigits bound 0 r
  | cs => readDigits bound 0 cs

theorem readDigits_lt {bound acc n : Nat} {cs : List Char} (h : acc < bound)
    (hr : readDigits bound acc cs = .ok n) : n < bound := by
  induction cs generalizing acc with
  | nil => simp only [readDigits, Except.ok.injEq] at hr; omega
  | cons c r ih =>
    simp only [readDigits] at hr
    split at hr
    · split at hr
      · next hlt => exact ih hlt hr
      · cases hr
    · cases hr

end StepRunner.Text
