import StepRunner.Text.Blank

/-!
# Sources and spans

A named text, and places in it given by byte offsets. `slice?` answers only for a span that is in
order, in range and on character boundaries.
-/

namespace StepRunner

/-- A range of bytes, the end not included. -/
structure Span where
  start : Nat
  stop : Nat
  deriving DecidableEq, Repr

/-- A text with the name it is shown under. -/
structure Source where
  name : String
  text : String
  deriving DecidableEq, Repr

/-- The characters that take exactly the next `n` bytes, and the rest. -/
def Text.takeBytes? : Nat → List Char → Option (List Char × List Char)
  | 0, cs => some ([], cs)
  | _ + 1, [] => none
  | n + 1, c :: r =>
    if c.utf8Size ≤ n + 1 then
      (takeBytes? (n + 1 - c.utf8Size) r).map fun p => (c :: p.1, p.2)
    else none
termination_by _ cs => cs

/-- The text under a span. -/
def Source.slice? (s : Source) (sp : Span) : Option String :=
  if sp.start ≤ sp.stop then do
    let front ← Text.takeBytes? sp.start s.text.toList
    let piece ← Text.takeBytes? (sp.stop - sp.start) front.2
    return String.ofList piece.1
  else none

theorem Text.takeBytes?_append (as bs : List Char) :
    takeBytes? (byteLength as) (as ++ bs) = some (as, bs) := by
  induction as with
  | nil => simp [takeBytes?]
  | cons c r ih =>
    have hc : 0 < c.utf8Size := Char.utf8Size_pos c
    obtain ⟨n, hn⟩ : ∃ n, c.utf8Size + byteLength r = n + 1 :=
      ⟨c.utf8Size + byteLength r - 1, by omega⟩
    rw [List.cons_append, byteLength_cons, hn, takeBytes?, if_pos (by omega),
      show n + 1 - c.utf8Size = byteLength r by omega, ih]
    rfl

end StepRunner
