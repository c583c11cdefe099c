/-!
# UTF-16 code units

A text as a list of 16-bit units, and back. A surrogate that stands alone reads as U+FFFD, which
no encoded text has.
-/

namespace StepRunner.Text

/-- The character shown for what cannot be decoded. -/
def replacement : Char := '\ufffd'

def unitsOf (c : Char) : List UInt16 :=
  if c.toNat < 0x10000 then [c.toNat.toUInt16]
  else [(0xD800 + (c.toNat - 0x10000) / 0x400).toUInt16,
        (0xDC00 + (c.toNat - 0x10000) % 0x400).toUInt16]

def encodeUnits (cs : List Char) : List UInt16 := cs.flatMap unitsOf

def isHighSurrogate (u : UInt16) : Bool := 0xD800 ≤ u && u < 0xDC00

def isLowSurrogate (u : UInt16) : Bool := 0xDC00 ≤ u && u < 0xE000

/-- The character of a unit that is no half of a pair. -/
def ofUnit (u : UInt16) : Char :=
  if isHighSurrogate u || isLowSurrogate u then replacement else Char.ofNat u.toNat

def ofPair (hi lo : UInt16) : Char :=
  Char.ofNat (0x10000 + (hi.toNat - 0xD800) * 0x400 + (lo.toNat - 0xDC00))

def decodeUnits : List UInt16 → List Char
  | [] => []
  | [u] => [ofUnit u]
  | u :: v :: r =>
    if isHighSurrogate u && isLowSurrogate v then ofPair u v :: decodeUnits r
    else ofUnit u :: decodeUnits (v :: r)

end StepRunner.Text
