import StepRunner.Text.Units

/-!
# Octets

Texts as UTF-8. `decode?` reads what `encode` writes. `decodeLossy` never fails: each longest run
of bytes that begins a character and breaks off becomes one U+FFFD.
-/

namespace StepRunner.Text

def isContinuation (b : UInt8) : Bool := 0x80 ≤ b && b < 0xC0

/-- The second byte allowed behind a lead byte of three or four. -/
def allowsSecond (lead b : UInt8) : Bool :=
  if lead = 0xE0 then 0xA0 ≤ b && b < 0xC0
  else if lead = 0xED then 0x80 ≤ b && b < 0xA0
  else if lead = 0xF0 then 0x90 ≤ b && b < 0xC0
  else if lead = 0xF4 then 0x80 ≤ b && b < 0x90
  else isContinuation b

/-- The low bits of the bytes put behind each other, six from each. -/
def joinBits (lead : Nat) (rest : List UInt8) : Char :=
  Char.ofNat (rest.foldl (fun n b => 64 * n + b.toNat % 64) lead)

/-- The character at the front of `b :: r` and how many bytes of `r` belong to it. -/
def decodeOne (b : UInt8) (r : List UInt8) : Char × Nat :=
  if b < 0x80 then (Char.ofNat b.toNat, 0)
  else if 0xC2 ≤ b && b < 0xE0 then
    match r with
    | c :: _ => if isContinuation c then (joinBits (b.toNat % 32) [c], 1) else (replacement, 0)
    | [] => (replacement, 0)
  else if 0xE0 ≤ b && b < 0xF0 then
    match r with
    | c :: s =>
      if !allowsSecond b c then (replacement, 0)
      else match s with
        | d :: _ =>
          if isContinuation d then (joinBits (b.toNat % 16) [c, d], 2) else (replacement, 1)
        | [] => (replacement, 1)
    | [] => (replacement, 0)
  else if 0xF0 ≤ b && b < 0xF5 then
    match r with
    | c :: s =>
      if !allowsSecond b c then (replacement, 0)
      else match s with
        | d :: u =>
          if !isContinuation d then (replacement, 1)
          else match u with
            | e :: _ =>
              if isContinuation e then (joinBits (b.toNat % 8) [c, d, e], 3) else (replacement, 2)
            | [] => (replacement, 2)
        | [] => (replacement, 1)
    | [] => (replacement, 0)
  else (replacement, 0)

def decodeLossy : List UInt8 → List Char
  | [] => []
  | b :: r => (decodeOne b r).1 :: decodeLossy (r.drop (decodeOne b r).2)
termination_by bs => bs.length
decreasing_by simp only [List.length_drop, List.length_cons]; omega

def encode (cs : List Char) : List UInt8 := cs.flatMap String.utf8EncodeChar

/-- The text of bytes that are UTF-8 throughout. -/
def decode? (bs : List UInt8) : Option String := String.fromUTF8? bs.toByteArray

theorem decode?_encode (cs : List Char) : decode? (encode cs) = some (String.ofList cs) := by
  have h : (encode cs).toByteArray.IsValidUTF8 := ⟨cs, rfl⟩
  unfold decode? String.fromUTF8?
  rw [dif_pos h]
  rfl

end StepRunner.Text
