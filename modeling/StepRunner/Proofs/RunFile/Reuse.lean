import StepRunner.Proofs.RunFile.Location
import StepRunner.RunFile.Parser

/-!
# Parsers that are used again

Whatever a parser is asked to parse, it leaves the chain of files as it was: an error inside of a
text passes the end of the text, where its file is taken off the chain. The main lemma: a parser
gives what the instructions of a file are, read while the files on its chain are being read
(`returns_parseFileAbove`). So a parser that has been used is as good as a new one
(`parse_behind_uses`).
-/

namespace StepRunner.RunFile

namespace Parser

/-! ### What leaves the parser as it was -/

section

variable {α β : Type} {base : List Path} {st : Above base}

/-- The outcome is `r`, and the parser is left as it was. -/
def Returns (x : Parsing base α) (st : Above base) (r : Except ParseError α) : Prop :=
  x st = (r, st)

theorem returns_pure (a : α) : Returns (pure a) st (.ok a) := rfl

theorem returns_throw (e : ParseError) : Returns (throw e : Parsing base α) st (.error e) := rfl

theorem returns_liftExcept (r : Except ParseError α) : Returns (liftExcept r) st r := by
  cases r <;> rfl

theorem returns_get {f : Above base → Parsing base α} {r : Except ParseError α}
    (h : Returns (f st) st r) : Returns (get >>= f) st r := h

theorem Returns.bind {x : Parsing base α} {f : α → Parsing base β} {r : Except ParseError α}
    {g : α → Except ParseError β} (hx : Returns x st r) (hf : ∀ a, Returns (f a) st (g a)) :
    Returns (x >>= f) st (r >>= g) := by
  have hrun : (x >>= f) st = (match r with
    | .ok a => f a st
    | .error e => (.error e, st)) := by
    show (ExceptT.bindCont f (x st).1) (x st).2 = _
    rw [hx]
    cases r <;> rfl
  unfold Returns
  rw [hrun]
  cases r with
  | error e => rfl
  | ok a => exact hf a

end

/-! ### Lines -/

section

variable {files : FileTree} {base : List Path} {st : Above base} {s : Scope}
  {parseFile : Path → Parsing base (List Instruction)}
  {read : Path → Except ParseError (List Instruction)}

/-- What is done behind some lines is what a scan does with the lines that are left. -/
def GoesOn (st : Above base) (s : Scope)
    (inclusion : SourceLine → String → Except ParseError (List Instruction))
    (blocks : List OpenBlock) (given : List Instruction) {n : Nat}
    (k : List Instruction × Rest n → Parsing base (List Instruction)) : Prop :=
  ∀ here (rest : Rest n), Returns (k (here, rest)) st
    (scan s inclusion ⟨blocks, given ++ here⟩ rest.1)

theorem returns_parseLine (hread : ∀ q, Returns (parseFile q) st (read q)) {l : SourceLine}
    (h : ¬ l.Opens ∧ ¬ l.Closes) (r : List SourceLine) :
    Returns (parseLine files parseFile s l r) st (do
      let here ← ofLine s (included files read s) l
      return (here, ⟨r, Nat.le_refl _⟩)) := by
  rw [parseLine, ofLine]
  rcases l.kind with ho | hc | hn | hs
  · exact absurd ho h.1
  · exact absurd hc h.2
  · rcases SourceLine.meaning_of_isNote hn with hm | ⟨target, hm⟩
    · rw [hm]
      exact returns_pure _
    · rw [hm]
      dsimp only
      unfold included
      cases resolveInclude files s target with
      | none => exact returns_throw _
      | some p => exact (hread p).bind fun _ => returns_pure _
  · rw [SourceLine.meaning_of_isStep hs]
    dsimp only
    split
    · exact returns_throw _
    · exact returns_pure _

/-- A line that ends no block, and the block behind it if it opens one. -/
theorem returns_parseLine_bind (hread : ∀ q, Returns (parseFile q) st (read q)) {l : SourceLine}
    {r : List SourceLine} {blocks : List OpenBlock} {given : List Instruction}
    {k : List Instruction × Rest r.length → Parsing base (List Instruction)} (hl : ¬ l.Closes)
    (hblock : Returns (parseBlock files parseFile s l [] r >>= k) st
      (scan s (included files read s) ⟨⟨l, given⟩ :: blocks, []⟩ r))
    (hk : GoesOn st s (included files read s) blocks given k) :
    Returns (parseLine files parseFile s l r >>= k) st
      (scan s (included files read s) ⟨blocks, given⟩ (l :: r)) := by
  rw [scan]
  by_cases ho : l.Opens
  · rw [Progress.take_of_opens ho, parseLine, SourceLine.meaning_of_opens ho]
    exact hblock
  · have hline : Returns (parseLine files parseFile s l r) st _ :=
      returns_parseLine hread ⟨ho, hl⟩ r
    have hboth : Returns (parseLine files parseFile s l r >>= k) st _ :=
      hline.bind fun a => hk a.1 a.2
    rw [Progress.take_of_not_mark ⟨ho, hl⟩]
    simp only [bind_assoc, pure_bind] at hboth ⊢
    exact hboth

theorem parseBlock_cons {l : SourceLine} (h : ¬ l.Closes) (opening : SourceLine)
    (body : List Instruction) (r : List SourceLine) :
    parseBlock files parseFile s opening body (l :: r) = (do
      let a ← parseLine files parseFile s l r
      let b ← parseBlock files parseFile s opening (body ++ a.1) a.2.1
      return (b.1, ⟨b.2.1, Nat.le_succ_of_le (Nat.le_trans b.2.2 a.2.2)⟩)) := by
  rw [parseBlock]
  rcases l.kind with ho | hc | hn | hs
  · rw [SourceLine.meaning_of_opens ho]
  · exact absurd hc h
  · rcases SourceLine.meaning_of_isNote hn with hm | ⟨target, hm⟩ <;> rw [hm]
  · rw [SourceLine.meaning_of_isStep hs]

/-- Behind a block a scan goes on in the block around it. -/
theorem returns_parseBlock_bind (hread : ∀ q, Returns (parseFile q) st (read q))
    {opening : SourceLine} {blocks : List OpenBlock} {before body : List Instruction}
    {ls : List SourceLine} {k : List Instruction × Rest ls.length → Parsing base (List Instruction)}
    (hk : GoesOn st s (included files read s) blocks before k) {n : Nat} (hn : ls.length = n) :
    Returns (parseBlock files parseFile s opening body ls >>= k) st
      (scan s (included files read s) ⟨⟨opening, before⟩ :: blocks, body⟩ ls) := by
  induction n using Nat.strongRecOn generalizing ls opening blocks before body with
  | _ n ih =>
    cases ls with
    | nil =>
      rw [parseBlock]
      exact returns_throw _
    | cons l r =>
      rw [List.length_cons] at hn
      by_cases hc : l.Closes
      · rw [parseBlock, SourceLine.meaning_of_closes hc, scan, Progress.take_of_closes hc]
        simp only [bind_assoc, pure_bind]
        refine (returns_liftExcept _).bind fun n => (returns_liftExcept _).bind fun all => ?_
        exact hk all ⟨r, _⟩
      · have hrest : parseBlock files parseFile s opening body (l :: r) >>= k =
            parseLine files parseFile s l r >>= fun a =>
              parseBlock files parseFile s opening (body ++ a.1) a.2.1 >>= fun b =>
                k (b.1, ⟨b.2.1, Nat.le_succ_of_le (Nat.le_trans b.2.2 a.2.2)⟩) := by
          rw [parseBlock_cons hc, bind_assoc]
          simp only [bind_assoc, pure_bind]
        rw [hrest]
        have hbehind : GoesOn st s (included files read s) (⟨opening, before⟩ :: blocks) body
            fun a : List Instruction × Rest r.length =>
              parseBlock files parseFile s opening (body ++ a.1) a.2.1 >>= fun b =>
                k (b.1, ⟨b.2.1, Nat.le_succ_of_le (Nat.le_trans b.2.2 a.2.2)⟩) := fun here rest =>
          ih rest.1.length (by have hle := rest.2; omega)
            (fun all behind => hk all ⟨behind.1, _⟩) rfl
        exact returns_parseLine_bind hread hc (ih r.length (by omega) hbehind rfl) hbehind

/-- Lines are parsed as they are scanned. -/
theorem returns_parseLines (hread : ∀ q, Returns (parseFile q) st (read q))
    (out : List Instruction) (ls : List SourceLine) :
    Returns (parseLines files parseFile s out ls) st
      (scan s (included files read s) ⟨[], out⟩ ls) := by
  induction hn : ls.length using Nat.strongRecOn generalizing ls out with
  | _ n ih =>
    cases ls with
    | nil =>
      rw [parseLines]
      exact returns_pure _
    | cons l r =>
      rw [List.length_cons] at hn
      rw [parseLines]
      by_cases hc : l.Closes
      · rw [parseLine, SourceLine.meaning_of_closes hc, scan, Progress.take_of_closes hc]
        exact returns_throw _
      · have hrest : GoesOn st s (included files read s) [] out
            fun a : List Instruction × Rest r.length =>
              parseLines files parseFile s (out ++ a.1) a.2.1 := fun here rest =>
          ih rest.1.length (by have hle := rest.2; omega) _ rest.1 rfl
        exact returns_parseLine_bind hread hc (returns_parseBlock_bind hread hrest rfl) hrest

end

/-! ### Texts and files -/

variable {files : FileTree}

theorem returns_reading {α : Type} {base : List Path} {st : Above base} {key : Path}
    {x : Parsing (key :: st.1.chain) α} {r : Except ParseError α}
    (h : Returns x ⟨st.1.push key, List.suffix_rfl⟩ r) : Returns (reading key st x) st r := by
  unfold reading
  rw [show x ⟨st.1.push key, List.suffix_rfl⟩ = _ from h]
  cases r <;> rfl

/-- A text is parsed with its file on the chain, which is off it again behind the text. -/
theorem returns_parseTextWith {base : List Path} {st : Above base} {p : Path}
    {parseFile : (chain : List Path) → base <:+ chain →
      onChain chain (identity files p) = false → Path →
      Parsing (identity files p :: chain) (List Instruction)}
    {read : Path → Except ParseError (List Instruction)}
    (hread : ∀ hc q, Returns (parseFile st.1.chain st.2 hc q)
      ⟨st.1.push (identity files p), List.suffix_rfl⟩ (read q)) (text : String) :
    Returns (parseTextWith files p parseFile text) st
      (if onChain st.1.chain (identity files p) then
        .error (.cycle p (st.1.chain.reverse ++ [identity files p]))
      else readText files read p text) := by
  unfold parseTextWith
  refine returns_get ?_
  dsimp only
  split
  · exact returns_throw _
  · next hc =>
    rw [readText_eq, flatten_eq_scan]
    refine (returns_liftExcept _).bind fun _ => returns_reading ?_
    exact returns_parseLines (hread _) [] _

theorem readFile_of_text {chain : List Path} {p : Path} {text : String}
    (h : HasText files p text) : readFile files chain p =
      if onChain chain (identity files p) then
        .error (.cycle p (chain.reverse ++ [identity files p]))
      else readText files (readFile files (identity files p :: chain)) p text := by
  rw [readFile_eq, Frame.enter_of_text h]
  split
  · rfl
  · rw [readText_eq, bind_assoc]
    simp only [pure_bind, flatten_eq_scan]
    rfl

theorem returns_parseFileAbove {base : List Path} (st : Above base) (p : Path) :
    Returns (parseFileAbove files base p) st (readFile files st.1.chain p) := by
  induction hn : unvisited base using Nat.strongRecOn generalizing base st p with
  | _ n ih =>
    rw [parseFileAbove]
    split
    · next hfile =>
      rw [readFile_eq, Frame.enter, hfile]
      exact returns_throw _
    · next place content hfile =>
      split
      · next e htext =>
        rw [readFile_eq, Frame.enter, hfile]
        dsimp only
        rw [htext]
        exact returns_throw _
      · next text htext =>
        rw [readFile_of_text ⟨place, content, hfile, htext⟩]
        refine returns_parseTextWith (fun hc q => ?_) text
        have hless := unvisited_cons_lt (fits_identity hfile) hc
        exact ih _ (hn ▸ Nat.lt_of_lt_of_le hless (unvisited_le_of_suffix st.2)) _ q rfl

/-! ### One parse after another -/

/-- One use of a parser. -/
def parse (files : FileTree) : Origin → StateM Parser (Except ParseError (List Instruction))
  | .file p => parseFile files p
  | .text p content => parseText files p content

theorem parseFile_eq (p : Path) (st : Parser) :
    parseFile files p st = (readFile files st.chain p, st) := by
  have hreturns : parseFileAbove files st.chain p ⟨st, List.suffix_rfl⟩ = _ :=
    returns_parseFileAbove _ p
  rw [parseFile, hreturns]

theorem parseText_eq (p : Path) (text : String) (st : Parser) :
    parseText files p text st =
      (if onChain st.chain (identity files p) then
        .error (.cycle p (st.chain.reverse ++ [identity files p]))
      else readText files (readFile files (identity files p :: st.chain)) p text, st) := by
  have hreturns : parseTextWith files p
      (fun chain _ _ q => parseFileAbove files (identity files p :: chain) q) text
      (⟨st, List.suffix_rfl⟩ : Above st.chain) = _ :=
    returns_parseTextWith (fun _ q => returns_parseFileAbove _ q) text
  rw [parseText, hreturns]
  rfl

/-- Whatever came of it, a parse leaves the chain as it was. -/
theorem parse_left (o : Origin) (st : Parser) : (parse files o st).2 = st := by
  cases o with
  | file p =>
    show (parseFile files p st).2 = st
    rw [parseFile_eq]
  | text p content =>
    show (parseText files p content st).2 = st
    rw [parseText_eq]

theorem mapM_parse_left (os : List Origin) (st : Parser) :
    (os.mapM (parse files) st).2 = st := by
  induction os generalizing st with
  | nil => rfl
  | cons o os ih =>
    rw [List.mapM_cons]
    show (os.mapM (parse files) (parse files o st).2).2 = st
    rw [parse_left, ih]

theorem parse_new (o : Origin) : parse files o new = (o.parse files, new) := by
  cases o with
  | file p => exact parseFile_eq p new
  | text p content => exact parseText_eq p content new

/-- Behind any uses, failed ones too, a parser gives what a new one gives and has no file left on
its chain. -/
theorem parse_behind_uses (files : FileTree) (earlier : List Origin) (o : Origin) :
    let st := (earlier.mapM (parse files) new).2
    parse files o st = parse files o new ∧ (parse files o st).2.chain = [] ∧
      (parse files o new).1 = o.parse files := by
  intro st
  have hst : st = new := mapM_parse_left earlier new
  rw [hst, parse_new]
  exact ⟨rfl, rfl, rfl⟩

end Parser

end StepRunner.RunFile
