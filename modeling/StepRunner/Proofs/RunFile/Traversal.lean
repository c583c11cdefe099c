import Mathlib.Logic.Function.Iterate
import StepRunner.Proofs.RunFile.Scan

/-!
# The traversal of a file and all it includes

A file is read line by line; at a directive the traversal goes down into the file it names, and at
the end of that file it comes back. `Moment` is a state of the traversal, with a `Frame` for each
file that is being read, and `next` takes one step. The main lemma: from a file the traversal comes
to one end, with the instructions or the error of the file (`Moment.comesTo_done_iff`).
-/

namespace StepRunner.RunFile

/-! ### Files and what they include -/

/-- A file that can be read as text. -/
def HasText (files : FileTree) (p : Path) (text : String) : Prop :=
  ∃ place content, files.file? p = some (place, content) ∧ content.text? = .ok text

/-- The text of a file as it is parsed. -/
def fileScope (p : Path) (text : String) : Scope := ⟨p, p.text, dropByteOrderMark text⟩

theorem HasText.unique {files : FileTree} {p : Path} {text text' : String}
    (h : HasText files p text) (h' : HasText files p text') : text = text' := by
  obtain ⟨place, content, hfile, htext⟩ := h
  obtain ⟨place', content', hfile', htext'⟩ := h'
  rw [hfile] at hfile'
  cases hfile'
  rw [htext] at htext'
  cases htext'
  rfl

/-- The instructions a directive stands for if `read` gives those of a file. -/
def included (files : FileTree) (read : Path → Except ParseError (List Instruction)) (s : Scope)
    (l : SourceLine) (target : String) : Except ParseError (List Instruction) :=
  match resolveInclude files s target with
  | some q => read q
  | none => .error (.unresolved (s.locate l) target (s.path.directory.join target))

theorem readText_eq (files : FileTree) (read : Path → Except ParseError (List Instruction))
    (p : Path) (text : String) :
    readText files read p text = (do
      checkBalance (fileScope p text).source
      flatten (fileScope p text) (included files read (fileScope p text))
        (sourceLines (fileScope p text).source.text)) := rfl

/-- The file a directive names: its target as written if that is a file, else the target next to
the file the directive stands in. -/
def Names (files : FileTree) (s : Scope) (target : String) (q : Path) : Prop :=
  files.isFile q = true ∧
    (q = ⟨target⟩ ∨ files.isFile ⟨target⟩ = false ∧ q = s.path.directory.join target)

theorem resolveInclude_eq_some_iff {files : FileTree} {s : Scope} {target : String} {q : Path} :
    resolveInclude files s target = some q ↔ Names files s target q := by
  simp only [resolveInclude, Names, List.find?_cons, List.find?_nil]
  cases hdirect : files.isFile ⟨target⟩ with
  | true =>
    simp only [Option.some.injEq, Bool.true_eq_false, false_and, or_false]
    exact ⟨fun h => by subst h; exact ⟨hdirect, rfl⟩, fun h => h.2.symm⟩
  | false =>
    cases hbeside : files.isFile (s.path.directory.join target) with
    | true =>
      simp only [Option.some.injEq, true_and]
      constructor
      · rintro rfl
        exact ⟨hbeside, .inr rfl⟩
      · rintro ⟨hq, rfl | rfl⟩
        · rw [hdirect] at hq; cases hq
        · rfl
    | false =>
      simp only [reduceCtorEq, true_and, false_iff, not_and, not_or]
      intro hq
      constructor
      · rintro rfl; rw [hdirect] at hq; cases hq
      · rintro rfl; rw [hbeside] at hq; cases hq

/-! ### Moments -/

/-- A file that is being read. -/
structure Frame where
  scope : Scope
  /-- What the file is told apart by. -/
  key : Path
  progress : Progress
  /-- The lines that have not been taken up. -/
  rest : List SourceLine

namespace Frame

def add (f : Frame) (is : List Instruction) : Frame := { f with progress := f.progress.add is }

/-- A file none of whose lines has been taken up. -/
def start (files : FileTree) (p : Path) (text : String) : Frame :=
  ⟨fileScope p text, identity files p, .start, sourceLines (fileScope p text).source.text⟩

/-- A file when its first line is about to be taken up, the files of `chain` being read. -/
def enter (files : FileTree) (chain : List Path) (p : Path) : Except ParseError Frame :=
  match files.file? p with
  | none => .error (.missing p)
  | some (_, content) =>
    match content.text? with
    | .error e => .error (.unreadable p e)
    | .ok text =>
      if onChain chain (identity files p) then
        .error (.cycle p (chain.reverse ++ [identity files p]))
      else do
        checkBalance (fileScope p text).source
        return start files p text

end Frame

/-- A state of the traversal. Frames stand with the innermost file first. -/
inductive Moment where
  /-- A file is about to be read, which the first of the frames includes. -/
  | entering (p : Path) (outer : List Frame)
  | reading (f : Frame) (outer : List Frame)
  | done (r : Except ParseError (List Instruction))

namespace Moment

def frames : Moment → List Frame
  | entering _ outer => outer
  | reading f outer => f :: outer
  | done _ => []

/-- Behind a file the traversal goes on in the file that includes it. -/
def resume (r : Except ParseError (List Instruction)) : List Frame → Moment
  | [] => done r
  | f :: outer =>
    match r with
    | .ok is => reading (f.add is) outer
    | .error e => done (.error e)

@[simp] theorem resume_error (e : ParseError) (outer : List Frame) :
    resume (.error e) outer = done (.error e) := by
  cases outer <;> rfl

/-- One step of the traversal: it enters a file, takes up a line, or leaves a file. -/
def next (files : FileTree) : Moment → Moment
  | entering p outer =>
    match Frame.enter files (outer.map Frame.key) p with
    | .ok f => reading f outer
    | .error e => done (.error e)
  | reading f outer =>
    match f.rest with
    | [] => resume (f.progress.finish f.scope) outer
    | l :: r =>
      match l.meaning with
      | .inclusion target =>
        match resolveInclude files f.scope target with
        | some q => entering q ({ f with rest := r } :: outer)
        | none =>
          done (.error (.unresolved (f.scope.locate l) target
            (f.scope.path.directory.join target)))
      | _ =>
        match f.progress.take f.scope (fun _ _ => .ok []) l with
        | .ok pr => reading { f with progress := pr, rest := r } outer
        | .error e => done (.error e)
  | done r => done r

/-- The traversal comes from one moment to the other. -/
def ComesTo (files : FileTree) (m m' : Moment) : Prop := ∃ n, (next files)^[n] m = m'

theorem ComesTo.refl (files : FileTree) (m : Moment) : ComesTo files m m := ⟨0, rfl⟩

theorem ComesTo.trans {files : FileTree} {a b c : Moment} (h : ComesTo files a b)
    (h' : ComesTo files b c) : ComesTo files a c := by
  obtain ⟨m, rfl⟩ := h
  obtain ⟨n, rfl⟩ := h'
  exact ⟨n + m, Function.iterate_add_apply ..⟩

theorem ComesTo.step {files : FileTree} {m m' : Moment} (h : ComesTo files (next files m) m') :
    ComesTo files m m' := ComesTo.trans ⟨1, rfl⟩ h

theorem iterate_next_done (files : FileTree) (n : Nat) (r : Except ParseError (List Instruction)) :
    (next files)^[n] (done r) = done r := Function.iterate_fixed rfl n

/-- The traversal has one end. -/
theorem ComesTo.unique {files : FileTree} {m : Moment} {r r' : Except ParseError (List Instruction)}
    (h : ComesTo files m (done r)) (h' : ComesTo files m (done r')) : r = r' := by
  obtain ⟨n, hn⟩ := h
  obtain ⟨n', hn'⟩ := h'
  have hboth : done r = done r' := by
    rw [← iterate_next_done files n' r, ← iterate_next_done files n r', ← hn, ← hn',
      ← Function.iterate_add_apply, ← Function.iterate_add_apply, Nat.add_comm]
  cases hboth
  rfl

end Moment

/-! ### The traversal reads what the parser reads -/

section

variable {s : Scope}

theorem Progress.take_of_inclusion
    {inclusion : SourceLine → String → Except ParseError (List Instruction)} {l : SourceLine}
    {target : String}
    (h : l.meaning = .inclusion target) (pr : Progress) :
    pr.take s inclusion l = (do
      let here ← inclusion l target
      return pr.add here) := by
  rw [take, h, ofLine, h]

/-- Only directives ask for other files. -/
theorem Progress.take_congr {l : SourceLine} (h : ∀ target, l.meaning ≠ .inclusion target)
    (pr : Progress)
    (inclusion inclusion' : SourceLine → String → Except ParseError (List Instruction)) :
    pr.take s inclusion l = pr.take s inclusion' l := by
  unfold take ofLine
  cases hm : l.meaning with
  | inclusion target => exact absurd hm (h target)
  | comment | blockOpen | blockClose | step => rfl

end

variable {files : FileTree}

theorem Frame.enter_of_text {chain : List Path} {p : Path} {text : String}
    (h : HasText files p text) : Frame.enter files chain p =
      if onChain chain (identity files p) then
        .error (.cycle p (chain.reverse ++ [identity files p]))
      else do
        checkBalance (fileScope p text).source
        return start files p text := by
  obtain ⟨place, content, hfile, htext⟩ := h
  simp only [enter, hfile, htext]

/-- What is no text is not entered, whatever files are being read. -/
theorem Frame.exists_text_or_enter (files : FileTree) (p : Path) : (∃ text, HasText files p text) ∨
    ∃ e, (∀ q chain, e ≠ .cycle q chain) ∧ ∀ chain, Frame.enter files chain p = .error e := by
  unfold enter
  split
  · exact .inr ⟨_, fun _ _ => ParseError.noConfusion, fun _ => rfl⟩
  · next place content hfile =>
    split
    · exact .inr ⟨_, fun _ _ => ParseError.noConfusion, fun _ => rfl⟩
    · next text htext => exact .inl ⟨text, place, content, hfile, htext⟩

theorem Frame.enter_eq_ok_iff {chain : List Path} {p : Path} {f : Frame} :
    Frame.enter files chain p = .ok f ↔ ∃ text, HasText files p text ∧
      onChain chain (identity files p) = false ∧
      checkBalance (fileScope p text).source = .ok () ∧ f = .start files p text := by
  constructor
  · intro h
    rcases exists_text_or_enter files p with ⟨text, htext⟩ | ⟨e, -, henter⟩
    · rw [enter_of_text htext] at h
      split at h
      · cases h
      · next hc =>
        obtain ⟨⟨⟩, hbalance, ⟨⟩⟩ := bind_eq_ok_iff.mp h
        exact ⟨text, htext, Bool.eq_false_iff.mpr hc, hbalance, rfl⟩
    · rw [henter] at h
      cases h
  · rintro ⟨text, htext, hc, hbalance, rfl⟩
    rw [enter_of_text htext, hc, hbalance]
    rfl

/-- A file that can be read is entered, and its lines are taken up. -/
theorem readFile_eq (chain : List Path) (p : Path) :
    readFile files chain p = (do
      let f ← Frame.enter files chain p
      scan f.scope (included files (readFile files (f.key :: chain)) f.scope) f.progress
        f.rest) := by
  rw [readFile, Frame.enter]
  split
  · next hfile => rw [hfile]; rfl
  · next place content hfile =>
    rw [hfile]
    dsimp only
    cases content.text? with
    | error e => rfl
    | ok text =>
      dsimp only
      split
      · rfl
      · rw [readText_eq]
        simp only [bind_assoc, pure_bind, flatten_eq_scan]
        rfl

namespace Moment

theorem next_reading_of_inclusion {s : Scope} {key : Path} {pr : Progress} {l : SourceLine}
    {r : List SourceLine} {outer : List Frame} {target : String}
    (h : l.meaning = .inclusion target) :
    next files (reading ⟨s, key, pr, l :: r⟩ outer) =
      match resolveInclude files s target with
      | some q => entering q (⟨s, key, pr, r⟩ :: outer)
      | none => done (.error (.unresolved (s.locate l) target (s.path.directory.join target))) := by
  simp only [next, h]

theorem next_reading_of_other {s : Scope} {key : Path} {pr : Progress} {l : SourceLine}
    {r : List SourceLine} {outer : List Frame} (h : ∀ target, l.meaning ≠ .inclusion target) :
    next files (reading ⟨s, key, pr, l :: r⟩ outer) =
      match pr.take s (fun _ _ => .ok []) l with
      | .ok pr => reading ⟨s, key, pr, r⟩ outer
      | .error e => done (.error e) := by
  unfold next
  cases hm : l.meaning with
  | inclusion target => exact absurd hm (h target)
  | comment | blockOpen | blockClose | step => simp only [hm]

/-- If the files that are included are read as the parser reads them, the lines of a file are. -/
theorem comesTo_of_reading {s : Scope} {key : Path} {outer : List Frame}
    (hread : ∀ q inner, inner.key = key → ComesTo files (entering q (inner :: outer))
      (resume (readFile files (key :: outer.map Frame.key) q) (inner :: outer)))
    (pr : Progress) (ls : List SourceLine) :
    ComesTo files (reading ⟨s, key, pr, ls⟩ outer)
      (resume (scan s (included files (readFile files (key :: outer.map Frame.key)) s) pr ls)
        outer) := by
  induction ls generalizing pr with
  | nil => exact ⟨1, rfl⟩
  | cons l r ih =>
    refine .step ?_
    rw [scan]
    by_cases hm : ∃ target, l.meaning = .inclusion target
    · obtain ⟨target, hm⟩ := hm
      rw [Progress.take_of_inclusion hm, included, next_reading_of_inclusion hm]
      cases resolveInclude files s target with
      | none => exact resume_error _ outer ▸ .refl ..
      | some q =>
        refine (hread q ⟨s, key, pr, r⟩ rfl).trans ?_
        cases hq : readFile files (key :: outer.map Frame.key) q with
        | error e =>
          simp only [hq]
          exact resume_error e outer ▸ .refl ..
        | ok is =>
          simp only [hq]
          exact ih (pr.add is)
    · have hother : ∀ target, l.meaning ≠ .inclusion target := fun target h => hm ⟨target, h⟩
      rw [next_reading_of_other hother, pr.take_congr hother _ (included files _ s)]
      cases pr.take s _ l with
      | error e => exact resume_error e outer ▸ .refl ..
      | ok pr => exact ih pr

theorem comesTo_of_entering (p : Path) (outer : List Frame) :
    ComesTo files (entering p outer) (resume (readFile files (outer.map Frame.key) p) outer) := by
  -- Each file on the chain leaves fewer that can be entered.
  induction hn : unvisited (outer.map Frame.key) using Nat.strongRecOn generalizing p outer with
  | _ n ih =>
    refine .step ?_
    rw [readFile_eq, next]
    cases henter : Frame.enter files (outer.map Frame.key) p with
    | error e => exact resume_error e outer ▸ .refl ..
    | ok f =>
      obtain ⟨text, ⟨place, content, hfile, -⟩, hc, -, rfl⟩ := Frame.enter_eq_ok_iff.mp henter
      have hless := unvisited_cons_lt (fits_identity hfile) hc
      refine comesTo_of_reading (fun q inner hinner => ?_) _ _
      have hchain : (inner :: outer).map Frame.key =
          identity files p :: outer.map Frame.key := by rw [List.map_cons, hinner]
      have hinclude := ih _ (hn ▸ hless) q (inner :: outer) (by rw [hchain])
      rw [hchain] at hinclude
      exact hinclude

/-- The traversal from a file ends, with what the file parses to. -/
theorem comesTo_done_iff {p : Path} {r : Except ParseError (List Instruction)} :
    ComesTo files (entering p []) (done r) ↔ parseFile files p = r := by
  have hend : ComesTo files (entering p []) (done (parseFile files p)) := comesTo_of_entering p []
  exact ⟨fun h => hend.unique h, fun h => h ▸ hend⟩

end Moment

end StepRunner.RunFile
