import StepRunner.Text.Numeral
import StepRunner.Yaml.Tag

/-!
# YAML tokens

A text as a list of tokens. Indentation becomes `blockSequenceStart`, `blockMappingStart` and
`blockEnd`. A key of a mapping may carry no mark in front: what could be one is remembered as a
candidate, and the `:` behind it puts `key` before its first token.
-/

namespace StepRunner.Yaml

inductive Token where
  | versionDirective (major minor : Nat)
  | tagDirective (handle : List Char) (lead : Tag)
  | documentStart
  | documentEnd
  | blockSequenceStart
  | blockMappingStart
  | blockEnd
  | flowSequenceStart
  | flowSequenceEnd
  | flowMappingStart
  | flowMappingEnd
  | blockEntry
  | flowEntry
  | key
  | value
  | alias (name : List Char)
  | anchor (name : List Char)
  /-- A tag with no handle is verbatim. -/
  | tag (handle : List Char) (suffix : Tag)
  | scalar (style : Style) (text : List Char)
  deriving DecidableEq, Repr

/-- A token that may turn out to start a key. -/
structure Candidate where
  /-- Its place among the tokens. -/
  number : Nat
  line : Nat
  column : Nat
  index : Nat
  /-- It stands where only a key can. -/
  required : Bool

structure Scan where
  cursor : Cursor
  tokens : Array Token := #[]
  /-- The columns of the blocks around, the innermost first. -/
  indents : List Nat := []
  candidate : Option Candidate := none
  /-- The candidates of the flow collections around, the innermost first. -/
  outer : List (Option Candidate) := []
  /-- Whether a key could start here. -/
  keyAllowed : Bool := true

namespace Scan

def inFlow (s : Scan) : Bool := !s.outer.isEmpty

def indent? (s : Scan) : Option Nat := s.indents.head?

def push (t : Token) (s : Scan) : Scan := { s with tokens := s.tokens.push t }

def skip (n : Nat) (s : Scan) : Scan := { s with cursor := s.cursor.skip n }

def allowKey (b : Bool) (s : Scan) : Scan := { s with keyAllowed := b }

/-! ### Candidates -/

/-- A key ends on its line, within 1024 characters. -/
def isStale (c : Cursor) (k : Candidate) : Bool := k.line < c.line || k.index + 1024 < c.index

def refresh (c : Cursor) : Option Candidate → Except Problem (Option Candidate)
  | none => .ok none
  | some k =>
    if !isStale c k then .ok (some k)
    else if k.required then .error .keyWithoutValue
    else .ok none

/-- Forgets a candidate that has become stale. Those of the collections around wait till theirs
ends. -/
def dropStale (s : Scan) : Except Problem Scan := do
  return { s with candidate := ← refresh s.cursor s.candidate }

def dropCandidate (s : Scan) : Except Problem Scan :=
  if s.candidate.any (·.required) then .error .keyWithoutValue
  else .ok { s with candidate := none }

/-- Notes that the token to come may start a key. -/
def noteCandidate (s : Scan) : Except Problem Scan := do
  if s.keyAllowed then
    let s ← s.dropCandidate
    return { s with candidate := some {
      number := s.tokens.size
      line := s.cursor.line
      column := s.cursor.column
      index := s.cursor.index
      required := !s.inFlow && s.indent? = some s.cursor.column } }
  else return s

/-! ### Blocks -/

/-- Opens a block at a column right of the block around, with its token at a place. -/
def openBlock (column : Nat) (place : Nat) (t : Token) (s : Scan) : Scan :=
  if !s.inFlow && s.indent?.all (· < column) then
    { s with indents := column :: s.indents, tokens := s.tokens.insertIdxIfInBounds place t }
  else s

/-- How many of the blocks around lie right of a column. -/
def blocksRightOf (column : Nat) (indents : List Nat) : Nat :=
  (indents.takeWhile (column < ·)).length

def closeBlocks (n : Nat) (s : Scan) : Scan :=
  if s.inFlow then s
  else { s with
    indents := s.indents.drop n
    tokens := s.tokens ++ Array.replicate (min n s.indents.length) .blockEnd }

def closeBlocksRightOf (column : Nat) (s : Scan) : Scan :=
  s.closeBlocks (blocksRightOf column s.indents)

def closeAllBlocks (s : Scan) : Scan := s.closeBlocks s.indents.length

/-! ### White space and comments -/

/-- Over blanks and a comment. A byte order mark may start a line. -/
def skipInert (tabs : Bool) (c : Cursor) : Cursor :=
  let c := if c.column = 0 && c.sees '\ufeff' then c.next else c
  (c.dropWhile fun x => x = ' ' || (tabs && x = '\t')).skipComment

theorem length_rest_skipInert_le (tabs : Bool) (c : Cursor) :
    (skipInert tabs c).rest.length ≤ c.rest.length := by
  unfold skipInert
  refine Nat.le_trans (Cursor.length_rest_skipComment_le _) ?_
  refine Nat.le_trans (Cursor.length_rest_takeWhile_le ..) ?_
  split
  · exact Cursor.length_rest_skip_le c 1
  · exact Nat.le_refl _

/-- To the next token. A tab may stand where no key could start, and a line end lets one start. -/
def toNextToken (s : Scan) : Scan :=
  let c := skipInert (s.inFlow || !s.keyAllowed) s.cursor
  match _h : c.rest with
  | [] => { s with cursor := c }
  | x :: _ =>
    if isBreak x then
      toNextToken { s with cursor := c.next, keyAllowed := s.keyAllowed || !s.inFlow }
    else { s with cursor := c }
termination_by s.cursor.rest.length
decreasing_by
  refine Nat.lt_of_lt_of_le (Cursor.length_rest_next_lt ?_) (length_rest_skipInert_le ..)
  exact fun hc => List.cons_ne_nil _ _ (_h.symm.trans hc)

/-! ### Directives -/

def versionNumber (c : Cursor) : Except Problem (Nat × Cursor) :=
  let (digits, c) := c.takeWhile Char.isDigit
  if digits.isEmpty || 9 < digits.length then .error .directive
  else .ok (digits.foldl (fun n d => 10 * n + Text.digitValue d) 0, c)

def isUriChar (inBrackets : Bool) (c : Char) : Bool :=
  isWordChar c || ";/?:@&=+$.!~*'()".toList.contains c || (inBrackets && ",[]".toList.contains c)

/-- The octets of a tag in front, behind those read so far. -/
def uri (inBrackets : Bool) (octets : List UInt8) (c : Cursor) :
    Except Problem (List UInt8 × Cursor) :=
  let run := c.takeWhile (isUriChar inBrackets)
  let octets := octets ++ Text.encode run.1
  match Tag.escapedOctets? run.2.rest with
  | none => .error .tagText
  | some [] => .ok (octets, run.2)
  | some (b :: bs) =>
    if _h : run.2.rest = [] ∨ !Tag.isShaped (b :: bs) then .error .tagText
    else uri inBrackets (octets ++ b :: bs) (run.2.skip (3 * (bs.length + 1)))
termination_by c.rest.length
decreasing_by
  rw [not_or] at _h
  exact Nat.lt_of_lt_of_le (Cursor.length_rest_skip_lt _h.1 (by simp))
    (Cursor.length_rest_takeWhile_le ..)

/-- A `!`, and a word between it and another `!` if there is one; otherwise the word alone. -/
def tagHandle (c : Cursor) : List Char × Cursor :=
  let (word, after) := c.next.takeWhile isWordChar
  if after.sees '!' then ('!' :: word ++ ['!'], after.next) else ('!' :: word, after)

/-- Reads from behind the `%`. -/
def directive (c : Cursor) : Except Problem (Token × Cursor) := do
  let (name, c) := c.takeWhile isWordChar
  if name.isEmpty || !endsWord c.rest then throw .directive
  let c := c.dropWhile isSpace
  let (token, c) ← if name = "YAML".toList then do
      let (major, c) ← versionNumber c
      if !c.sees '.' then throw .directive
      let (minor, c) ← versionNumber c.next
      pure (Token.versionDirective major minor, c)
    else if name = "TAG".toList then do
      if !c.sees '!' then throw .directive
      let (handle, c) := tagHandle c
      if handle ≠ ['!'] && handle.getLast? ≠ some '!' then throw .directive
      if !c.rest.head?.any isSpace then throw .directive
      let c := c.dropWhile isSpace
      let (lead, c') ← uri true [] c
      if lead.isEmpty || !endsWord c'.rest then throw .directive
      pure (Token.tagDirective handle (.ofOctets lead), c')
    else throw .directive
  let c := (c.dropWhile isSpace).skipComment
  match c.rest with
  | [] => return (token, c)
  | x :: _ => if isBreak x then return (token, c.next) else throw .directive

/-! ### Node properties -/

/-- The name behind a `*` or `&`. -/
def anchorName (c : Cursor) : Except Problem (List Char × Cursor) :=
  let (name, c) := c.takeWhile isWordChar
  if name.isEmpty then .error .anchorName
  else if endsWord c.rest || c.rest.head?.any ("?:,]\x7d%@\x60".toList.contains) then .ok (name, c)
  else .error .anchorName

/-- Reads a tag from its `!`. -/
def tag (inFlow : Bool) (c : Cursor) : Except Problem (Token × Cursor) := do
  let (token, c) ← if c.next.sees '<' then do
      let (octets, c) ← uri true [] (c.skip 2)
      if octets.isEmpty || !c.sees '>' then throw .tagText
      pure (Token.tag [] (.ofOctets octets), c.next)
    else do
      let (handle, c) := tagHandle c
      if 2 ≤ handle.length && handle.getLast? = some '!' then
        let (suffix, c) ← uri false [] c
        if suffix.isEmpty then throw .tagText
        pure (Token.tag handle (.ofOctets suffix), c)
      else
        let (octets, c) ← uri false (Text.encode handle.tail) c
        let suffix := Tag.ofOctets octets
        let lone := suffix.octets.isEmpty
        pure (if lone then Token.tag [] (.ofText "!") else Token.tag ['!'] suffix, c)
  if endsWord c.rest || (inFlow && c.sees ',') then return (token, c) else throw .tagText

/-! ### Tokens -/

/-- Puts a token that a key may start with. -/
def pushNode (s : Scan) (read : Cursor → Except Problem (Token × Cursor)) :
    Except Problem Scan := do
  let s ← s.noteCandidate
  let (t, c) ← read s.cursor
  return { s.push t with cursor := c, keyAllowed := false }

def openFlow (t : Token) (s : Scan) : Except Problem Scan := do
  let s ← s.noteCandidate
  let s := (s.push t).skip 1
  return { s with candidate := none, outer := s.candidate :: s.outer, keyAllowed := true }

def closeFlow (t : Token) (s : Scan) : Except Problem Scan := do
  let s := ((← s.dropCandidate).push t).skip 1
  return { s with
    candidate := s.outer.head?.getD s.candidate, outer := s.outer.tail, keyAllowed := false }

def blockEntry (s : Scan) : Except Problem Scan := do
  if !s.inFlow && !s.keyAllowed then throw .sequenceEntryHere
  let s ← (s.openBlock s.cursor.column s.tokens.size .blockSequenceStart).dropCandidate
  return ((s.push .blockEntry).skip 1).allowKey true

def explicitKey (s : Scan) : Except Problem Scan := do
  if !s.inFlow && !s.keyAllowed then throw .mappingKeyHere
  let s ← (s.openBlock s.cursor.column s.tokens.size .blockMappingStart).dropCandidate
  return ((s.push .key).skip 1).allowKey !s.inFlow

def value (s : Scan) : Except Problem Scan :=
  match s.candidate with
  | some k =>
    let s := { s with candidate := none, tokens := s.tokens.insertIdxIfInBounds k.number .key }
    let s := s.openBlock k.column k.number .blockMappingStart
    .ok (((s.push .value).skip 1).allowKey false)
  | none => do
    if !s.inFlow && !s.keyAllowed then throw .mappingValueHere
    let s := s.openBlock s.cursor.column s.tokens.size .blockMappingStart
    return ((s.push .value).skip 1).allowKey !s.inFlow

def plain (s : Scan) : Except Problem Scan := do
  let s ← s.noteCandidate
  let p ← plainFrom s.inFlow (s.indent?.elim 0 (· + 1)) [] s.cursor
  return { s.push (.scalar .plain p.text) with cursor := p.cursor, keyAllowed := p.brokeLine }

def block (style : Style) (s : Scan) : Except Problem Scan := do
  let s ← s.dropCandidate
  let (text, c) ← blockScalar style s.indent? s.cursor.next
  return { s.push (.scalar style text) with cursor := c, keyAllowed := true }

def quoted (style : Style) (s : Scan) : Except Problem Scan :=
  s.pushNode fun c => do
    let (text, c) ← quotedFrom style c.next
    return (.scalar style text, c)

/-- Puts a token that stands outside all documents' content. -/
def outside (read : Cursor → Except Problem (Token × Cursor)) (s : Scan) : Except Problem Scan := do
  let s ← s.closeAllBlocks.dropCandidate
  let (t, c) ← read s.cursor
  return { s.push t with cursor := c, keyAllowed := false }

def named (t : List Char → Token) (c : Cursor) : Except Problem (Token × Cursor) := do
  let (name, c) ← anchorName c.next
  return (t name, c)

/-- The token that starts with `x`, which `r` follows. -/
def readToken (x : Char) (r : List Char) (s : Scan) : Except Problem Scan :=
  let alone := s.inFlow || endsWord r
  match x with
  | '[' => s.openFlow .flowSequenceStart
  | '\x7b' => s.openFlow .flowMappingStart
  | ']' => s.closeFlow .flowSequenceEnd
  | '\x7d' => s.closeFlow .flowMappingEnd
  | ',' => do return (((← s.dropCandidate).push .flowEntry).skip 1).allowKey true
  | '-' => if endsWord r then s.blockEntry else s.plain
  | '?' => if alone then s.explicitKey else s.plain
  | ':' => if alone then s.value else s.plain
  | '*' => s.pushNode (named .alias)
  | '&' => s.pushNode (named .anchor)
  | '!' => s.pushNode (tag s.inFlow)
  | '|' => if s.inFlow then .error .strayCharacter else s.block .literal
  | '>' => if s.inFlow then .error .strayCharacter else s.block .folded
  | '\'' => s.quoted .singleQuoted
  | '"' => s.quoted .doubleQuoted
  | x => if x = '\t' || "#%@\x60".toList.contains x then .error .strayCharacter else s.plain

/-- Reads the next token. -/
def step (s : Scan) : Except Problem Scan := do
  let s ← s.toNextToken.dropStale
  let s := s.closeBlocksRightOf s.cursor.column
  match s.cursor.rest with
  | [] => s.closeAllBlocks.dropCandidate
  | x :: r =>
    if s.cursor.column = 0 && x = '%' then s.outside fun c => directive c.next
    else if s.cursor.seesMark ['-', '-', '-'] then
      s.outside fun c => .ok (.documentStart, c.skip 3)
    else if s.cursor.seesMark ['.', '.', '.'] then
      s.outside fun c => .ok (.documentEnd, c.skip 3)
    else s.readToken x r

/-- Takes up to `n` steps. The step from the end of the text is the last one. -/
def run : Nat → Scan → Except Problem Scan
  | 0, s => .ok s
  | n + 1, s => if s.cursor.rest.isEmpty then s.step else do run n (← s.step)

end Scan

/-- All tokens of a text. Each step but the last goes over a character at least. -/
def tokens (text : String) : Except Problem (List Token) := do
  let start ← Cursor.ofString text
  return (← Scan.run (start.rest.length + 1) { cursor := start }).tokens.toList

end StepRunner.Yaml
