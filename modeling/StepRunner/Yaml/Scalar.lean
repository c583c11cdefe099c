import StepRunner.Yaml.Cursor

/-!
# YAML scalars

The five written forms of a scalar. Line ends inside plain and quoted scalars are folded: a single
one becomes a space, of several the first is dropped. Block scalars keep their lines; in the
folded style a line end between two lines that start with no blank is folded the same way.
-/

namespace StepRunner.Yaml

inductive Style where
  | plain
  | singleQuoted
  | doubleQuoted
  | literal
  | folded
  deriving DecidableEq, Repr

/-! ### White space inside flowing scalars -/

/-- Line ends with the blanks around them gone, folded. -/
def foldBreaks : List Char → List Char
  | ['\n'] => [' ']
  | '\n' :: more => more
  | breaks => breaks

/-- The text of white space between two pieces of a scalar: blanks stay unless a line ends. -/
def gapText (run : List Char) : List Char :=
  if run.any isBreak then foldBreaks (run.filter isBreak) else run

/-- Whether a run of white space holds a tab left of `indent` on a line that it starts. -/
def tabsLeftOf (indent : Nat) : Option Nat → List Char → Bool
  | _, [] => false
  | column, x :: r =>
    if isBreak x then tabsLeftOf indent (some 0) r
    else (x = '\t' && column.any (· < indent)) || tabsLeftOf indent (column.map (· + 1)) r

/-! ### Plain scalars -/

def flowIndicators : List Char := [',', '[', ']', '\x7b', '\x7d']

/-- The piece of a plain scalar in front, up to white space or an indicator. -/
def plainPiece (inFlow : Bool) : List Char → Except Problem (List Char)
  | [] => .ok []
  | x :: r =>
    if isWhite x then .ok []
    else if inFlow && x = ':' && r.head?.any ('?' :: flowIndicators).contains then
      .error .colonInFlow
    else if x = ':' && endsWord r then .ok []
    else if inFlow && flowIndicators.contains x then .ok []
    else return x :: (← plainPiece inFlow r)

/-- A plain scalar's text, whether a line ended behind it, and the place where the next token is
looked for. Lines that continue it are indented by `indent` at least. -/
structure Plain where
  text : List Char
  brokeLine : Bool
  cursor : Cursor

/-- Reads on behind white space `gap`, which is part of the text if more text follows. -/
def plainFrom (inFlow : Bool) (indent : Nat) (gap : List Char) (c : Cursor) :
    Except Problem Plain :=
  if c.seesDocumentMark || c.sees '#' then .ok ⟨[], gap.any isBreak, c⟩
  else match _h : plainPiece inFlow c.rest with
    | .error e => .error e
    | .ok [] => .ok ⟨[], gap.any isBreak, c⟩
    | .ok (x :: r) =>
      let text := gapText gap ++ x :: r
      let run := (c.skip (r.length + 1)).takeWhile isWhite
      if tabsLeftOf indent none run.1 then .error .tabInIndentation
      else if run.1.isEmpty || (!inFlow && run.2.column < indent) then
        .ok ⟨text, run.1.any isBreak, run.2⟩
      else do
        let p ← plainFrom inFlow indent run.1 run.2
        return { p with text := text ++ p.text }
termination_by c.rest.length
decreasing_by
  refine Nat.lt_of_le_of_lt (Cursor.length_rest_takeWhile_le ..) ?_
  refine Cursor.length_rest_skip_lt (fun hc => ?_) (Nat.succ_ne_zero _)
  rw [hc] at _h
  cases _h

/-! ### Quoted scalars -/

def hexValue? (c : Char) : Option Nat :=
  if c.isDigit then some (c.toNat - '0'.toNat)
  else if 'a' ≤ c && c ≤ 'f' then some (c.toNat - 'a'.toNat + 10)
  else if 'A' ≤ c && c ≤ 'F' then some (c.toNat - 'A'.toNat + 10)
  else none

/-- The character whose number is written in the first `n` hexadecimal digits. -/
def hexChar? (n : Nat) (cs : List Char) : Option Char := do
  let digits ← (cs.take n).mapM hexValue?
  let value := digits.foldl (fun v d => 16 * v + d) 0
  if digits.length = n && value.isValidChar then some (Char.ofNat value) else none

/-- The character that an escape stands for, and the length of what is behind the backslash. -/
def escape? : List Char → Option (Char × Nat)
  | [] => none
  | x :: r =>
    match x with
    | '0' => some ('\x00', 1)
    | 'a' => some ('\x07', 1)
    | 'b' => some ('\x08', 1)
    | 't' | '\t' => some ('\t', 1)
    | 'n' => some ('\n', 1)
    | 'v' => some ('\x0b', 1)
    | 'f' => some ('\x0c', 1)
    | 'r' => some ('\r', 1)
    | 'e' => some ('\x1b', 1)
    | ' ' | '"' | '/' | '\\' => some (x, 1)
    | 'N' => some ('\x85', 1)
    | '_' => some ('\xa0', 1)
    | 'L' => some ('\u2028', 1)
    | 'P' => some ('\u2029', 1)
    | 'x' => (hexChar? 2 r).map (·, 3)
    | 'u' => (hexChar? 4 r).map (·, 5)
    | 'U' => (hexChar? 8 r).map (·, 9)
    | _ => none

/-- What ends a piece of a quoted scalar. -/
inductive PieceEnd where
  | quote
  | white
  | escapedBreak
  deriving DecidableEq, Repr

/-- The piece of a quoted scalar in front: its text, its written length and its end. -/
structure Piece where
  text : List Char
  length : Nat
  stop : PieceEnd

def Piece.push (x : Char) (n : Nat) (p : Piece) : Piece := ⟨x :: p.text, n + p.length, p.stop⟩

def singlePiece : List Char → Piece
  | '\'' :: '\'' :: r => (singlePiece r).push '\'' 2
  | '\'' :: _ => ⟨[], 0, .quote⟩
  | x :: r => if isWhite x then ⟨[], 0, .white⟩ else (singlePiece r).push x 1
  | [] => ⟨[], 0, .white⟩

def doublePiece (cs : List Char) : Except Problem Piece :=
  match cs with
  | [] => .ok ⟨[], 0, .white⟩
  | '"' :: _ => .ok ⟨[], 0, .quote⟩
  | '\\' :: r =>
    if r.head?.any isBreak then .ok ⟨[], 0, .escapedBreak⟩
    else match escape? r with
      | none => .error .escapeSequence
      | some (x, n) => do return (← doublePiece (r.drop n)).push x (n + 1)
  | x :: r =>
    if isWhite x then .ok ⟨[], 0, .white⟩ else do return (← doublePiece r).push x 1
termination_by cs.length

def quotedPiece (style : Style) (cs : List Char) : Except Problem Piece :=
  if style = .singleQuoted then .ok (singlePiece cs) else doublePiece cs

/-- Reads inside a quoted scalar, to behind the quote that closes it. -/
def quotedFrom (style : Style) (c : Cursor) : Except Problem (List Char × Cursor) :=
  if c.seesDocumentMark then .error .documentMarkInQuote
  else match quotedPiece style c.rest with
    | .error e => .error e
    | .ok piece =>
      let behind := c.skip piece.length
      match piece.stop with
      | .quote => .ok (piece.text, behind.next)
      | .white =>
        let run := behind.takeWhile isWhite
        if _h : run.1 = [] then .error .unclosedQuote
        else do
          let (text, c) ← quotedFrom style run.2
          return (piece.text ++ gapText run.1 ++ text, c)
      | .escapedBreak =>
        let run := (behind.skip 2).takeWhile isWhite
        if _h : behind.rest = [] then .error .unclosedQuote
        else do
          let (text, c) ← quotedFrom style run.2
          return (piece.text ++ run.1.filter isBreak ++ text, c)
termination_by c.rest.length
decreasing_by
  · exact Nat.lt_of_lt_of_le (Cursor.length_rest_takeWhile_lt _h) (Cursor.length_rest_skip_le ..)
  · exact Nat.lt_of_le_of_lt (Cursor.length_rest_takeWhile_le ..) <|
      Nat.lt_of_lt_of_le (Cursor.length_rest_skip_lt _h (by decide))
        (Cursor.length_rest_skip_le ..)

/-! ### Block scalars -/

/-- Which line ends at the end of a block scalar stay. -/
inductive Chomp where
  | strip
  | clip
  | keep
  deriving DecidableEq, Repr

/-- What stands behind the `|` or `>`: the indentation, if it is given, in either order with the
chomping. -/
structure BlockHeader where
  chomp : Chomp := .clip
  indent : Option Nat := none

def BlockHeader.read (c : Cursor) : Except Problem (BlockHeader × Cursor) := do
  let chomp? (c : Cursor) : Option Chomp × Cursor :=
    if c.sees '+' then (some .keep, c.next)
    else if c.sees '-' then (some .strip, c.next)
    else (none, c)
  let digit (c : Cursor) : Except Problem (Option Nat × Cursor) :=
    match c.rest with
    | x :: _ =>
      if x = '0' then .error .indentationIndicator
      else if x.isDigit then .ok (some (x.toNat - '0'.toNat), c.next)
      else .ok (none, c)
    | [] => .ok (none, c)
  let (before, c) := chomp? c
  let (indent, c) ← digit c
  let (chomp, c) := if before.isNone && indent.isSome then chomp? c else (before, c)
  let c := (c.dropWhile isSpace).skipComment
  match c.rest with
  | [] => return (⟨chomp.getD .clip, indent⟩, c)
  | x :: _ =>
    if isBreak x then return (⟨chomp.getD .clip, indent⟩, c.next)
    else throw .textBehindBlockHeader

/-- Empty lines: their ends, and the widest run of spaces on them and on the line behind them.
With a `limit`, no more spaces than that are taken from a line. -/
structure EmptyLines where
  breaks : List Char
  widest : Nat
  cursor : Cursor

def emptyLines (limit : Option Nat) (c : Cursor) : Except Problem EmptyLines :=
  let spaces := (c.rest.takeWhile (· = ' ')).length
  let c' := c.skip (limit.elim spaces fun n => min spaces (n - c.column))
  match _h : c'.rest with
  | [] => .ok ⟨[], c'.column, c'⟩
  | x :: _ =>
    if x = '\t' && limit.all (c'.column < ·) then .error .tabInIndentation
    else if !isBreak x then .ok ⟨[], c'.column, c'⟩
    else do
      let e ← emptyLines limit c'.next
      return { e with breaks := x :: e.breaks, widest := max c'.column e.widest }
termination_by c.rest.length
decreasing_by
  refine Nat.lt_of_lt_of_le (Cursor.length_rest_next_lt ?_) (Cursor.length_rest_skip_le ..)
  exact fun hc => List.cons_ne_nil _ _ (_h.symm.trans hc)

theorem length_rest_emptyLines_le {limit : Option Nat} {c : Cursor} {e : EmptyLines}
    (h : emptyLines limit c = .ok e) : e.cursor.rest.length ≤ c.rest.length := by
  fun_induction emptyLines limit c generalizing e with
  | case1 | case3 =>
    cases h
    exact Cursor.length_rest_skip_le ..
  | case2 => cases h
  | case4 c spaces c' x r hr =>
    next ih =>
      cases hm : emptyLines limit c'.next with
      | error => simp [hm, bind, Except.bind] at h
      | ok e' =>
        simp only [hm, bind, Except.bind, pure, Except.pure, Except.ok.injEq] at h
        subst h
        have hle := ih hm
        have hlt : c'.next.rest.length < c'.rest.length :=
          Cursor.length_rest_next_lt (by simp [hr])
        have hskip : c'.rest.length ≤ c.rest.length := Cursor.length_rest_skip_le ..
        show e'.cursor.rest.length ≤ c.rest.length
        omega

/-- A line of a block scalar: its text, its line end, and the ends of the empty lines behind. -/
structure BlockLine where
  text : List Char
  lineEnd : List Char
  more : List Char

def BlockLine.startsBlank (l : BlockLine) : Bool := l.text.head?.any isSpace

/-- The lines indented by `indent`. -/
def blockLines (indent : Nat) (c : Cursor) : Except Problem (List BlockLine × Cursor) :=
  if _h : c.column ≠ indent ∨ c.rest = [] then .ok ([], c)
  else
    let line := c.takeWhile (!isBreak ·)
    match _he : emptyLines (some indent) (line.2.skip 1) with
    | .error e => .error e
    | .ok e => do
      let (lines, c) ← blockLines indent e.cursor
      return (⟨line.1, line.2.rest.take 1, e.breaks⟩ :: lines, c)
termination_by c.rest.length
decreasing_by
  rw [not_or] at _h
  refine Nat.lt_of_le_of_lt (length_rest_emptyLines_le _he) ?_
  simp only [line, Cursor.takeWhile, Cursor.rest_skip, List.drop_drop, List.length_drop]
  exact Nat.sub_lt (List.length_pos_iff.mpr _h.2) (Nat.succ_pos _)

/-- What stands between a line and the next one. -/
def BlockLine.gap (style : Style) (l next : BlockLine) : List Char :=
  if style = .folded && l.lineEnd = ['\n'] && !l.startsBlank && !next.startsBlank then
    foldBreaks (l.lineEnd ++ l.more)
  else l.lineEnd ++ l.more

def blockText (style : Style) (chomp : Chomp) : List BlockLine → List Char
  | [] => []
  | [l] =>
    l.text ++ match chomp with
      | .strip => []
      | .clip => l.lineEnd
      | .keep => l.lineEnd ++ l.more
  | l :: next :: r => l.text ++ l.gap style next ++ blockText style chomp (next :: r)

/-- Reads a block scalar from behind its indicator, inside a block indented by `parent`. -/
def blockScalar (style : Style) (parent : Option Nat) (c : Cursor) :
    Except Problem (List Char × Cursor) := do
  let (header, c) ← BlockHeader.read c
  let given := header.indent.map (parent.getD 0 + ·)
  let lead ← emptyLines given c
  let indent := given.getD (max lead.widest (max 1 (parent.elim 0 (· + 1))))
  let (lines, c) ← blockLines indent lead.cursor
  let leading := if lines.isEmpty && header.chomp ≠ .keep then [] else lead.breaks
  return (leading ++ blockText style header.chomp lines, c)

end StepRunner.Yaml
