import StepRunner.RunFile.ParseError
import StepRunner.Text.Bounded
import StepRunner.Text.Numeral

/-!
# Parsing run-files

`flatten` turns the lines of one file into instructions: a block gives its body as often as its
end says, an include directive gives all that the named file gives. `readFile` carries the chain of
files being read; a file that is on it already is a cycle. Files are told apart by paths within the
limit of the file system, of which each include leaves fewer, so parsing ends.
-/

namespace StepRunner.RunFile

/-- The text of a file, and the path it was referred to by. -/
structure Scope where
  path : Path
  source : Source
  deriving DecidableEq, Repr

def Scope.locate (s : Scope) (l : SourceLine) : Location := ⟨s.source, l⟩

/-- How a block ends: the closing line, the count behind its `*`, and the lines that follow. -/
structure BlockEnd where
  line : SourceLine
  count : Option String
  rest : List SourceLine
  deriving Repr

/-- Cuts the lines behind a block's start at its end, `depth` inner blocks being open. Without an
end all lines belong to the block. -/
def cutBlock (depth : Nat) : List SourceLine → List SourceLine × Option BlockEnd
  | [] => ([], none)
  | l :: r =>
    match l.meaning, depth with
    | .blockClose count, 0 => ([], some ⟨l, count, r⟩)
    | .blockClose _, d + 1 => let p := cutBlock d r; (l :: p.1, p.2)
    | .blockOpen, d => let p := cutBlock (d + 1) r; (l :: p.1, p.2)
    | _, d => let p := cutBlock d r; (l :: p.1, p.2)

theorem cutBlock_length (depth : Nat) (ls : List SourceLine) :
    (cutBlock depth ls).1.length ≤ ls.length ∧
      ∀ e, (cutBlock depth ls).2 = some e → e.rest.length < ls.length := by
  fun_induction cutBlock depth ls with
  | case1 => simp
  | case2 l r => simp
  | case3 d l r _ _ _ ih | case4 d l r _ _ ih | case5 d l r _ _ _ _ ih =>
    simp only [List.length_cons, Nat.add_le_add_iff_right]
    exact ⟨ih.1, fun e he => Nat.lt_succ_of_lt (ih.2 e he)⟩

/-- How often a block is to be repeated. -/
def blockCount (l : Location) : Option String → Except ParseError Nat
  | none => .ok 1
  | some raw =>
    match Text.readNumeral UInt64.size raw.toList with
    | .ok (n + 1) => .ok (n + 1)
    | _ => .error (.badCount l raw)

/-- The body of a block as often as it is to be repeated. -/
def repeatBlock (l : Location) (count : Nat) (body : List Instruction) :
    Except ParseError (List Instruction) :=
  if count = 1 ∨ body = [] then .ok body
  else if body.length * count ≤ maxExpansion then .ok (List.replicate count body).flatten
  else .error (.tooLong l count)

/-- The instructions of the lines of one file; `inclusion` reads what a directive names. -/
def flatten (s : Scope) (inclusion : SourceLine → String → Except ParseError (List Instruction)) :
    List SourceLine → Except ParseError (List Instruction)
  | [] => .ok []
  | l :: r =>
    match l.meaning with
    | .comment => flatten s inclusion r
    | .step text =>
      if maxFields < Line.fieldCount text then .error (.tooManyFields (s.locate l))
      else do
        let more ← flatten s inclusion r
        return ⟨text, s.path, l.number, l.span, s.source⟩ :: more
    | .inclusion target => do
      let included ← inclusion l target
      let more ← flatten s inclusion r
      return included ++ more
    | .blockClose _ => .error (.unexpectedClose (s.locate l))
    | .blockOpen =>
      match _h : cutBlock 0 r with
      | (body, none) => do
        let _ ← flatten s inclusion body
        .error (.neverClosed (s.locate l))
      | (body, some e) => do
        let once ← flatten s inclusion body
        let count ← blockCount (s.locate e.line) e.count
        let all ← repeatBlock (s.locate e.line) count once
        let more ← flatten s inclusion e.rest
        return all ++ more
termination_by ls => ls.length
decreasing_by
  all_goals first
    | exact Nat.lt_succ_self _
    | have := cutBlock_length 0 r
      simp only [_h, List.length_cons] at this ⊢
      grind

/-- Opening and closing marks occur equally often in a text, wherever they stand. -/
def checkBalance (source : Source) : Except ParseError Unit :=
  let cs := source.text.toList
  if cs.count '(' = cs.count ')' then .ok ()
  else .error (.unbalanced source (cs.count '(') (cs.count ')'))

/-- A text without the mark that may stand in front of it. -/
def dropByteOrderMark (text : String) : String :=
  match text.toList with
  | '\ufeff' :: r => String.ofList r
  | _ => text

/-- An include target as written if that is a file, else next to the including file. -/
def resolveInclude (files : FileTree) (s : Scope) (target : String) : Option Path :=
  [⟨target⟩, s.path.directory.join target].find? files.isFile

/-- The instructions of a text that stands in the file `path`; `readFile` reads what it includes. -/
def readText (files : FileTree) (readFile : Path → Except ParseError (List Instruction))
    (path : Path) (text : String) : Except ParseError (List Instruction) := do
  let source : Source := ⟨path.text, dropByteOrderMark text⟩
  let scope : Scope := ⟨path, source⟩
  checkBalance source
  flatten scope
    (fun l target =>
      match resolveInclude files scope target with
      | some p => readFile p
      | none =>
        .error (.unresolved (scope.locate l) target (path.directory.join target)))
    (sourceLines source.text)

/-! ### Chains of files -/

/-- What a file is told apart by: its path from the root, or the path itself if that is too long. -/
def identity (files : FileTree) (p : Path) : Path :=
  match files.canonical p with
  | .ok q => q
  | .error _ => p

theorem fits_identity {files : FileTree} {p : Path} {x : Place × Content}
    (h : files.file? p = some x) : FileTree.fits (identity files p) := by
  unfold identity
  split
  · next hq => exact FileTree.fits_of_canonical hq
  · exact FileTree.fits_of_file? h

def onChain (chain : List Path) (p : Path) : Bool := chain.any (·.alike p)

/-- The paths within the limit. -/
noncomputable def shortPaths : List Path :=
  (Text.exists_all_of_byteLength_le FileTree.pathLimit).choose.map Path.ofChars

theorem mem_shortPaths {p : Path} (h : FileTree.fits p) : p ∈ shortPaths :=
  List.mem_map.mpr ⟨p.chars, (Text.exists_all_of_byteLength_le FileTree.pathLimit).choose_spec _
    (of_decide_eq_true h), by simp [Path.ofChars, Path.chars]⟩

/-- The number of short paths that are not on a chain. -/
noncomputable def unvisited (chain : List Path) : Nat := shortPaths.countP fun p => !onChain chain p

theorem countP_lt_countP {α : Type} {p q : α → Bool} {l : List α} {a : α} (ha : a ∈ l)
    (hq : ∀ x, q x → p x) (hpa : p a) (hqa : q a = false) : l.countP q < l.countP p := by
  induction l with
  | nil => cases ha
  | cons b l ih =>
    have hle : l.countP q ≤ l.countP p := List.countP_mono_left fun x _ => hq x
    rcases List.mem_cons.mp ha with rfl | ha
    · simp only [List.countP_cons, hpa, hqa]
      simp only [if_true, Bool.false_eq_true, if_false]
      omega
    · have hl := ih ha
      have hb : (if q b then 1 else 0) ≤ (if p b then 1 else 0) := by
        split
        · next hqb => simp [hq b hqb]
        · exact Nat.zero_le _
      simp only [List.countP_cons]
      omega

theorem unvisited_cons_lt {chain : List Path} {p : Path} (h : FileTree.fits p)
    (hc : onChain chain p = false) : unvisited (p :: chain) < unvisited chain :=
  countP_lt_countP (mem_shortPaths h)
    (fun q hq => by
      simp only [onChain, List.any_cons, Bool.not_or, Bool.and_eq_true] at hq ⊢
      exact hq.2)
    (by simp [hc]) (by simp [onChain, Path.alike])

/-- The instructions of a file, read while the files of `chain` are being read. -/
def readFile (files : FileTree) (chain : List Path) (p : Path) :
    Except ParseError (List Instruction) :=
  match _h : files.file? p with
  | none => .error (.missing p)
  | some (_, content) =>
    match content.text? with
    | .error e => .error (.unreadable p e)
    | .ok text =>
      let key := identity files p
      if _hc : onChain chain key then .error (.cycle p (chain.reverse ++ [key]))
      else readText files (fun q => readFile files (key :: chain) q) p text
termination_by unvisited chain
decreasing_by exact unvisited_cons_lt (fits_identity _h) (Bool.eq_false_iff.mpr _hc)

/-- The instructions of a run-file. -/
def parseFile (files : FileTree) (p : Path) : Except ParseError (List Instruction) :=
  readFile files [] p

/-- The instructions of a text, read as if it stood in the file `p`. -/
def parseText (files : FileTree) (p : Path) (text : String) :
    Except ParseError (List Instruction) :=
  readText files (readFile files [identity files p]) p text

end StepRunner.RunFile
