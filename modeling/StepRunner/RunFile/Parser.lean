import StepRunner.RunFile.Parse

/-!
# Parsers

A parser reads one run-file or text after another. All it remembers is the chain of files that are
being read: a file is put on it before its lines are parsed and taken off it behind them, also if
one of them is refused. Lines are taken up one by one; what a line leaves of those behind it is
handed on. Parsing ends since the chain never gets shorter than it was when a file was entered.
-/

namespace StepRunner.RunFile

structure Parser where
  /-- The files that are being read, the innermost first. -/
  chain : List Path
  deriving DecidableEq, Repr

namespace Parser

def new : Parser := ⟨[]⟩

def push (key : Path) (st : Parser) : Parser := ⟨key :: st.chain⟩

def pop (st : Parser) : Parser := ⟨st.chain.tail⟩

/-- A parser with the files of `base` on its chain, behind those that were entered since. -/
abbrev Above (base : List Path) := { st : Parser // base <:+ st.chain }

/-- What a parser does while the files of `base` are being read. -/
abbrev Parsing (base : List Path) := ExceptT ParseError (StateM (Above base))

/-- What is left of `n` lines. -/
abbrev Rest (n : Nat) := { ls : List SourceLine // ls.length ≤ n }

/-! ### Lines -/

section

variable (files : FileTree) {base : List Path} (parseFile : Path → Parsing base (List Instruction))

mutual

/-- Parses a line, and the block behind it if it opens one. -/
def parseLine (s : Scope) (l : SourceLine) (r : List SourceLine) :
    Parsing base (List Instruction × Rest r.length) :=
  match l.meaning with
  | .comment => return ([], ⟨r, Nat.le_refl _⟩)
  | .blockOpen => parseBlock s l [] r
  | .blockClose _ => throw (.unexpectedClose (s.locate l))
  | .inclusion target =>
    match resolveInclude files s target with
    | none => throw (.unresolved (s.locate l) target (s.path.directory.join target))
    | some p => do
      let included ← parseFile p
      return (included, ⟨r, Nat.le_refl _⟩)
  | .step text =>
    if maxFields < Line.fieldCount text then throw (.tooManyFields (s.locate l))
    else return ([⟨text, s.path, l.number, l.span, s.source⟩], ⟨r, Nat.le_refl _⟩)
termination_by 2 * r.length + 1

/-- Parses a block up to its end; `body` is what its lines gave so far. -/
def parseBlock (s : Scope) (opening : SourceLine) (body : List Instruction) :
    (ls : List SourceLine) → Parsing base (List Instruction × Rest ls.length)
  | [] => throw (.neverClosed (s.locate opening))
  | l :: r =>
    match l.meaning with
    | .blockClose count => do
      let n ← liftExcept (blockCount (s.locate l) count)
      let all ← liftExcept (repeatBlock (s.locate l) n body)
      return (all, ⟨r, Nat.le_succ _⟩)
    | _ => do
      let (here, ⟨rest, h⟩) ← parseLine s l r
      let (all, ⟨behind, h'⟩) ← parseBlock s opening (body ++ here) rest
      return (all, ⟨behind, Nat.le_succ_of_le (Nat.le_trans h' h)⟩)
termination_by ls => 2 * ls.length

end

/-- Parses lines; `out` is what the lines before them gave. -/
def parseLines (s : Scope) (out : List Instruction) :
    List SourceLine → Parsing base (List Instruction)
  | [] => return out
  | l :: r => do
    let (here, ⟨rest, _h⟩) ← parseLine files parseFile s l r
    parseLines s (out ++ here) rest
termination_by ls => ls.length

end

/-! ### Texts and files -/

theorem suffix_tail {key : Path} {base chain : List Path} (h : key :: base <:+ chain) :
    base <:+ chain.tail := by
  obtain ⟨front, rfl⟩ := h
  cases front with
  | nil => exact List.suffix_rfl
  | cons q front => exact (List.suffix_cons key base).trans (List.suffix_append front _)

theorem unvisited_le_of_suffix {base chain : List Path} (h : base <:+ chain) :
    unvisited chain ≤ unvisited base := by
  refine List.countP_mono_left fun p _ hp => ?_
  simp only [onChain, Bool.not_eq_true', List.any_eq_false] at hp ⊢
  exact fun q hq => hp q (h.subset hq)

/-- Does `x` with a file on the chain, and takes the file off again whatever came of it. -/
def reading {α : Type} {base : List Path} (key : Path) (st : Above base)
    (x : Parsing (key :: st.1.chain) α) : Parsing base α := do
  let (result, left) := x ⟨st.1.push key, List.suffix_rfl⟩
  set (⟨left.1.pop, st.2.trans (suffix_tail left.2)⟩ : Above base)
  liftExcept result

section

variable (files : FileTree) {base : List Path}

/-- Parses a text as that of the file `p`; `parseFile` parses what it includes. -/
def parseTextWith (p : Path)
    (parseFile : (chain : List Path) → base <:+ chain → onChain chain (identity files p) = false →
      Path → Parsing (identity files p :: chain) (List Instruction))
    (text : String) : Parsing base (List Instruction) := do
  let st ← get
  let key := identity files p
  if hc : onChain st.1.chain key then throw (.cycle p (st.1.chain.reverse ++ [key]))
  else
    let scope : Scope := ⟨p, p.text, dropByteOrderMark text⟩
    liftExcept (checkBalance scope.source)
    reading key st (parseLines files (parseFile st.1.chain st.2 (Bool.eq_false_iff.mpr hc)) scope []
      (sourceLines scope.source.text))

/-- Reads and parses a file. -/
def parseFileAbove (base : List Path) (p : Path) : Parsing base (List Instruction) :=
  match _h : files.file? p with
  | none => throw (.missing p)
  | some (_, content) =>
    match content.text? with
    | .error e => throw (.unreadable p e)
    | .ok text =>
      parseTextWith files p
        (fun chain _hbase _hc q => parseFileAbove (identity files p :: chain) q) text
termination_by unvisited base
decreasing_by
  have hless := unvisited_cons_lt (fits_identity _h) _hc
  exact Nat.lt_of_lt_of_le hless (unvisited_le_of_suffix _hbase)

/-- The instructions of a run-file, or the error, and the parser behind it. -/
def parseFile (p : Path) (st : Parser) : Except ParseError (List Instruction) × Parser :=
  let (result, left) := parseFileAbove files st.chain p ⟨st, List.suffix_rfl⟩
  (result, left.1)

/-- The instructions of a text, read as if it stood in the file `p`. -/
def parseText (p : Path) (text : String) (st : Parser) :
    Except ParseError (List Instruction) × Parser :=
  let (result, left) := parseTextWith files p
    (fun chain _ _ q => parseFileAbove files (identity files p :: chain) q) text
    (⟨st, List.suffix_rfl⟩ : Above st.chain)
  (result, left.1)

end

end Parser

end StepRunner.RunFile
