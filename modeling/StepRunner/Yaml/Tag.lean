import StepRunner.Text.Octets
import StepRunner.Yaml.Scalar

/-!
# Tags

A tag is a list of octets, which need be no text: of an escaped character only the shape of its
encoding is looked at. A zero octet ends a tag.
-/

namespace StepRunner.Yaml

structure Tag where
  octets : List UInt8
  deriving DecidableEq, Repr

namespace Tag

/-- What stands in front of any zero. -/
def ofOctets (bs : List UInt8) : Tag := ⟨bs.takeWhile (· ≠ 0)⟩

def ofText (s : String) : Tag := ofOctets (Text.encode s.toList)

def append (a b : Tag) : Tag := ⟨a.octets ++ b.octets⟩

/-- The name behind the `!` of a local tag. -/
def localName? (t : Tag) : Option String :=
  match t.octets with
  | 0x21 :: name => Text.decode? name
  | _ => none

/-! ### Escaped octets -/

/-- Percent signs with two hexadecimal digits, as many as stand here. -/
def escapedOctets? : List Char → Option (List UInt8)
  | '%' :: a :: b :: r => do
    let octet := 16 * (← hexValue? a) + (← hexValue? b)
    return octet.toUInt8 :: (← escapedOctets? r)
  | '%' :: _ => none
  | _ => some []

/-- How many octets belong to a character behind its first. -/
def trailing? (b : UInt8) : Option Nat :=
  if b < 0x80 then some 0
  else if b < 0xC0 then none
  else if b < 0xE0 then some 1
  else if b < 0xF0 then some 2
  else if b < 0xF8 then some 3
  else none

/-- Whether behind each first octet of a character stand as many others as belong to it. -/
def isShaped : List UInt8 → Bool
  | [] => true
  | b :: r =>
    match trailing? b with
    | none => false
    | some n => n ≤ r.length && (r.take n).all Text.isContinuation && isShaped (r.drop n)
termination_by bs => bs.length
decreasing_by simp only [List.length_drop, List.length_cons]; omega

end Tag

end StepRunner.Yaml
