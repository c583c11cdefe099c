import StepRunner.Text.Blank

/-!
# Places in a YAML text

A cursor is a place in a text together with what is left to read. Lines end in `\n`, U+2028 or
U+2029; the other line ends are turned into `\n` before reading begins.
-/

namespace StepRunner.Yaml

/-- Why a text is not one YAML document. -/
inductive Problem where
  | controlCharacter
  | keyWithoutValue
  | sequenceEntryHere
  | mappingKeyHere
  | mappingValueHere
  | strayCharacter
  | directive
  | anchorName
  | tagText
  | indentationIndicator
  | textBehindBlockHeader
  | tabInIndentation
  | unclosedQuote
  | documentMarkInQuote
  | escapeSequence
  | colonInFlow
  | unknownTagHandle
  | unknownAnchor
  | nodeExpected
  | entryExpected
  | keyExpected
  | separatorExpected
  | documentStartExpected
  | secondDocument
  deriving DecidableEq, Repr

def Problem.message : Problem → String
  | controlCharacter => "control characters are not allowed"
  | keyWithoutValue => "could not find expected ':' behind a key"
  | sequenceEntryHere => "block sequence entries are not allowed in this context"
  | mappingKeyHere => "mapping keys are not allowed in this context"
  | mappingValueHere => "mapping values are not allowed in this context"
  | strayCharacter => "found a character that cannot start any token"
  | directive => "found a malformed or unknown directive"
  | anchorName => "did not find an expected anchor name"
  | tagText => "found a malformed tag"
  | indentationIndicator => "found an indentation indicator equal to 0"
  | textBehindBlockHeader => "did not find expected comment or line break"
  | tabInIndentation => "found a tab character that violates indentation"
  | unclosedQuote => "found unexpected end of stream in a quoted scalar"
  | documentMarkInQuote => "found unexpected document indicator in a quoted scalar"
  | escapeSequence => "found an unknown or malformed escape sequence"
  | colonInFlow => "found unexpected ':' in a plain scalar"
  | unknownTagHandle => "found undefined tag handle"
  | unknownAnchor => "found undefined alias"
  | nodeExpected => "did not find expected node content"
  | entryExpected => "did not find expected '-' indicator"
  | keyExpected => "did not find expected key"
  | separatorExpected => "did not find expected ',' or closing bracket"
  | documentStartExpected => "did not find expected document start"
  | secondDocument => "found more than one document"

/-! ### Characters -/

def isAllowed (c : Char) : Bool :=
  c = '\t' || c = '\n' || c = '\r' || (' ' ≤ c && c ≤ '~') || c = '\x85' ||
    ('\xa0' ≤ c && c.toNat ≠ 0xFFFE && c.toNat ≠ 0xFFFF)

def isSpace (c : Char) : Bool := c = ' ' || c = '\t'

def isBreak (c : Char) : Bool := c = '\n' || c = '\u2028' || c = '\u2029'

def isWhite (c : Char) : Bool := isSpace c || isBreak c

/-- The characters of names: anchors, handles, directives. -/
def isWordChar (c : Char) : Bool := c.isAlphanum || c = '_' || c = '-'

/-- Whether white space or the end of the text comes next. -/
def endsWord : List Char → Bool
  | [] => true
  | c :: _ => isWhite c

/-- Line ends written as `\r`, `\r\n` and U+0085 become `\n`. -/
def unifyBreaks : List Char → List Char
  | '\r' :: '\n' :: r => '\n' :: unifyBreaks r
  | c :: r => (if c = '\r' || c = '\x85' then '\n' else c) :: unifyBreaks r
  | [] => []

/-! ### Cursors -/

structure Cursor where
  rest : List Char
  line : Nat := 0
  column : Nat := 0
  /-- The number of characters in front. -/
  index : Nat := 0

namespace Cursor

/-- The start of a text. -/
def ofString (s : String) : Except Problem Cursor :=
  if s.toList.all isAllowed then .ok { rest := unifyBreaks s.toList }
  else .error .controlCharacter

def next (c : Cursor) : Cursor :=
  match c.rest with
  | [] => c
  | x :: r =>
    if isBreak x then ⟨r, c.line + 1, 0, c.index + 1⟩
    else ⟨r, c.line, c.column + 1, c.index + 1⟩

def skip (c : Cursor) : Nat → Cursor
  | 0 => c
  | n + 1 => c.next.skip n

/-- The characters in front for as long as `p` holds, and the place behind them. -/
def takeWhile (p : Char → Bool) (c : Cursor) : List Char × Cursor :=
  let taken := c.rest.takeWhile p
  (taken, c.skip taken.length)

def dropWhile (p : Char → Bool) (c : Cursor) : Cursor := (c.takeWhile p).2

/-- Whether the character in front is `x`. -/
def sees (c : Cursor) (x : Char) : Bool := c.rest.head? == some x

/-- Whether `text` stands here at the start of a line as a word of its own. -/
def seesMark (text : List Char) (c : Cursor) : Bool :=
  c.column = 0 && text.isPrefixOf c.rest && endsWord (c.rest.drop text.length)

def seesDocumentMark (c : Cursor) : Bool :=
  c.seesMark ['-', '-', '-'] || c.seesMark ['.', '.', '.']

/-- Over spaces and a comment, which leave the line they are on. -/
def skipComment (c : Cursor) : Cursor :=
  if c.sees '#' then c.dropWhile (!isBreak ·) else c

theorem rest_next (c : Cursor) : c.next.rest = c.rest.tail := by
  unfold next
  split <;> simp_all only [List.tail_nil, List.tail_cons]
  split <;> rfl

theorem rest_skip (c : Cursor) (n : Nat) : (c.skip n).rest = c.rest.drop n := by
  induction n generalizing c with
  | zero => rfl
  | succ n ih => rw [skip, ih, rest_next, List.drop_tail]

theorem length_rest_skip_le (c : Cursor) (n : Nat) : (c.skip n).rest.length ≤ c.rest.length := by
  rw [rest_skip, List.length_drop]
  exact Nat.sub_le ..

theorem length_rest_skip_lt {c : Cursor} {n : Nat} (h : c.rest ≠ []) (hn : n ≠ 0) :
    (c.skip n).rest.length < c.rest.length := by
  rw [rest_skip, List.length_drop]
  exact Nat.sub_lt (List.length_pos_iff.mpr h) (Nat.pos_of_ne_zero hn)

theorem length_rest_takeWhile_le (p : Char → Bool) (c : Cursor) :
    (c.takeWhile p).2.rest.length ≤ c.rest.length :=
  length_rest_skip_le ..

/-- What is taken is no longer left to read. -/
theorem length_rest_takeWhile_lt {p : Char → Bool} {c : Cursor} (h : (c.takeWhile p).1 ≠ []) :
    (c.takeWhile p).2.rest.length < c.rest.length := by
  refine length_rest_skip_lt (fun hc => h ?_) (fun hl => h (List.eq_nil_of_length_eq_zero hl))
  simp [takeWhile, hc]

theorem length_rest_next_lt {c : Cursor} (h : c.rest ≠ []) :
    c.next.rest.length < c.rest.length :=
  length_rest_skip_lt h Nat.one_ne_zero

theorem length_rest_skipComment_le (c : Cursor) :
    c.skipComment.rest.length ≤ c.rest.length := by
  unfold skipComment
  split
  · exact length_rest_takeWhile_le ..
  · exact Nat.le_refl _

end Cursor

end StepRunner.Yaml
