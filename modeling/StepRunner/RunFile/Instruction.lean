import StepRunner.Source
import StepRunner.Path
import StepRunner.RunFile.Line

/-!
# Source lines and instructions

`sourceLines` cuts a text at its newlines and keeps each line that is not blank, trimmed, with its
number and the bytes it takes. An instruction is a step line together with where it stands.
-/

namespace StepRunner.RunFile

structure SourceLine where
  text : String
  /-- Counted from 1. -/
  number : Nat
  span : Span
  deriving DecidableEq, Repr

namespace SourceLine

def meaning (l : SourceLine) : Line := Line.classify l.text

/-- The line in `piece`, which starts at byte `offset`, unless it is blank. -/
def ofPiece? (number offset : Nat) (piece : List Char) : Option SourceLine :=
  let text := Text.trim piece
  if text = [] then none
  else
    let start := offset + Text.byteLength (piece.takeWhile Text.isBlank)
    some ⟨String.ofList text, number, ⟨start, start + Text.byteLength text⟩⟩

/-- The lines in pieces that stand one newline apart. -/
def ofPieces (number offset : Nat) : List (List Char) → List SourceLine
  | [] => []
  | p :: ps =>
    (ofPiece? number offset p).toList ++ ofPieces (number + 1) (offset + Text.byteLength p + 1) ps

end SourceLine

def sourceLines (text : String) : List SourceLine :=
  SourceLine.ofPieces 1 0 (Text.splitAt '\n' text.toList)

/-- A step line and where it stands. -/
structure Instruction where
  text : String
  /-- The file the line stands in, as it was referred to. -/
  file : Path
  line : Nat
  span : Span
  source : Source
  deriving DecidableEq, Repr

end StepRunner.RunFile
