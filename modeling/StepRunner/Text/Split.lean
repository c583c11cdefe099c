/-!
# Splitting

Cutting a text at a character, or at a doubled character read from the left without overlap
(`a___b` at `__` is `a` and `_b`). Both always give at least one piece.
-/

namespace StepRunner.Text

/-- The pieces between the occurrences of `sep`. -/
def splitAt (sep : Char) : List Char → List (List Char)
  | [] => [[]]
  | c :: r => if c = sep then [] :: splitAt sep r else (splitAt sep r).modifyHead (c :: ·)

/-- The pieces between the leftmost occurrences of `d` twice in a row. -/
def splitDouble (d : Char) : List Char → List (List Char)
  | [] => [[]]
  | [c] => [[c]]
  | a :: b :: r =>
    if a = d ∧ b = d then [] :: splitDouble d r
    else (splitDouble d (b :: r)).modifyHead (a :: ·)

/-- What stands before the first `d` twice in a row; all of the text if there is none. -/
def beforeDouble (d : Char) : List Char → List Char
  | [] => []
  | [c] => [c]
  | a :: b :: r => if a = d ∧ b = d then [] else a :: beforeDouble d (b :: r)

/-- Whether `pat` stands somewhere in the text. -/
def contains (pat : List Char) : List Char → Bool
  | [] => pat.isEmpty
  | c :: r => pat.isPrefixOf (c :: r) || contains pat r

theorem splitAt_ne_nil (sep : Char) (cs : List Char) : splitAt sep cs ≠ [] := by
  induction cs with
  | nil => simp [splitAt]
  | cons c r ih =>
    by_cases h : c = sep
    · simp [splitAt, h]
    · cases hs : splitAt sep r with
      | nil => exact absurd hs ih
      | cons p ps => simp [splitAt, h, hs]

theorem splitDouble_ne_nil (d : Char) (cs : List Char) : splitDouble d cs ≠ [] := by
  fun_induction splitDouble d cs with
  | case1 | case2 | case3 => simp
  | case4 a b r h ih =>
    cases hs : splitDouble d (b :: r) with
    | nil => exact absurd hs ih
    | cons p ps => simp

/-- A text cut at a character has one piece more than the character occurs. -/
theorem length_splitAt (sep : Char) (cs : List Char) :
    (splitAt sep cs).length = cs.count sep + 1 := by
  induction cs with
  | nil => rfl
  | cons c r ih => by_cases h : c = sep <;> simp_all [splitAt]

end StepRunner.Text
