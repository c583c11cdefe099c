import StepRunner.Proofs.RunFile.Expansion
import StepRunner.Proofs.Step.Compiling
import StepRunner.Proofs.Text.Line

/-!
# Where instructions and errors point

An instruction names the line it was made of, and most errors name the line that is to blame, each
with the text the line stands in. That line is one of a text that was read, whatever includes and
blocks lie between (`located_readFile`), and a line is found where its span says
(`shows_of_mem_sourceLines`).
-/

namespace StepRunner.RunFile

/-! ### Lines and their spans -/

theorem exists_piece_of_mem_ofPieces {number offset : Nat} {ps : List (List Char)} {l : SourceLine}
    (h : l ∈ SourceLine.ofPieces number offset ps) : ∃ front p back, ps = front ++ p :: back ∧
      SourceLine.ofPiece? (number + front.length)
        (offset + Text.byteLength (front.flatMap (· ++ ['\n']))) p = some l := by
  induction ps generalizing number offset with
  | nil => cases h
  | cons q qs ih =>
    rw [SourceLine.ofPieces, List.mem_append, Option.mem_toList] at h
    rcases h with hq | hqs
    · exact ⟨[], q, qs, rfl, hq⟩
    · obtain ⟨front, p, back, rfl, hp⟩ := ih hqs
      refine ⟨q :: front, p, back, rfl, ?_⟩
      have hnewline : Text.byteLength ['\n'] = 1 := rfl
      rw [List.length_cons, List.flatMap_cons, Text.byteLength_append, Text.byteLength_append,
        hnewline, ← hp]
      congr 1 <;> omega

theorem exists_lineOf_of_mem_sourceLines {text : String} {l : SourceLine}
    (h : l ∈ sourceLines text) :
    ∃ c : Text.LineOf text.toList, l = ⟨String.ofList c.body, c.number, c.span⟩ := by
  obtain ⟨front, p, back, hsplit, hp⟩ := exists_piece_of_mem_ofPieces h
  unfold SourceLine.ofPiece? at hp
  dsimp only at hp
  split at hp
  · cases hp
  · next hne =>
    obtain ⟨c, hbody, hnumber, hstart, hstop⟩ := Text.exists_lineOf hsplit hne
    refine ⟨c, ?_⟩
    rw [← Option.some.inj hp, hbody, hnumber, Nat.add_comm, Nat.zero_add, ← hstart, ← hstop]

/-- The number of the line that starts at a byte: one more than the newlines before it. -/
def lineAt (text : String) (start : Nat) : Nat :=
  1 + ((Text.encode text.toList).take start).count 0x0A

theorem shows_of_mem_sourceLines {s : Source} {l : SourceLine} (h : l ∈ sourceLines s.text) :
    s.Shows l.span l.text ∧ l.number = lineAt s.text l.span.start := by
  obtain ⟨c, rfl⟩ := exists_lineOf_of_mem_sourceLines h
  exact ⟨c.shows, c.count_newline⟩

/-! ### Locations -/

/-- The line an instruction was made of. -/
def Instruction.location (i : Instruction) : Location := ⟨i.source, i.text, i.line, i.span⟩

/-- The line a parse error points at. -/
def ParseError.blame? : ParseError → Option Location
  | missing _ | unreadable _ _ | cycle _ _ | unbalanced _ _ _ => none
  | unexpectedClose l | unresolved l _ _ | tooManyFields l | badCount l _ | tooLong l _
  | neverClosed l => some l

theorem ParseError.fault_of_blame (e : ParseError) :
    e.fault.span = e.blame?.map (·.line.span) ∧
      ∀ l, e.blame? = some l → e.fault.source = some l.source := by
  cases e with
  | missing | unreadable | cycle | unbalanced => exact ⟨rfl, fun l h => by cases h⟩
  | unexpectedClose | unresolved | tooManyFields | badCount | tooLong | neverClosed =>
    exact ⟨rfl, fun l h => by cases h; rfl⟩

end RunFile

/-- The line a compile error points at. -/
def CompileError.blame : CompileError → RunFile.Location
  | badName i _ _ | badRepeat i _ _ => i.location

theorem CompileError.fault_of_blame (e : CompileError) :
    e.fault.span = some e.blame.line.span ∧ e.fault.source = some e.blame.source := by
  cases e <;> exact ⟨rfl, rfl⟩

namespace RunFile

/-- The outcome of a computation: a value with `P` or an error with `E`. -/
def Gives {ε α : Type} (E : ε → Prop) (P : α → Prop) : Except ε α → Prop
  | .ok a => P a
  | .error e => E e

theorem Gives.bind {ε α β : Type} {E : ε → Prop} {P : α → Prop} {Q : β → Prop} {x : Except ε α}
    {f : α → Except ε β} (h : Gives E P x) (hf : ∀ a, P a → Gives E Q (f a)) :
    Gives E Q (x >>= f) := by
  cases x with
  | error e => exact h
  | ok a => exact hf a h

section

-- The texts that may be read.
variable {S : Scope → Prop}

/-- The line stands in one of the texts. -/
def Location.Among (S : Scope → Prop) (l : Location) : Prop :=
  ∃ s, S s ∧ l.source = s.source ∧ l.line ∈ sourceLines s.source.text

/-- Made of a line of one of the texts, and named after its file. -/
def Instruction.Among (S : Scope → Prop) (i : Instruction) : Prop :=
  ∃ s, S s ∧ i.file = s.path ∧ i.source = s.source ∧
    i.location.line ∈ sourceLines s.source.text

def ParseError.Among (S : Scope → Prop) (e : ParseError) : Prop :=
  ∀ l, e.blame? = some l → l.Among S

/-- All instructions are among the texts, or the error is. -/
def Located (S : Scope → Prop) : Except ParseError (List Instruction) → Prop :=
  Gives (ParseError.Among S) fun is => ∀ i ∈ is, i.Among S

theorem Instruction.Among.location {i : Instruction} (h : i.Among S) : i.location.Among S := by
  obtain ⟨s, hs, -, hsource, hline⟩ := h
  exact ⟨s, hs, hsource, hline⟩

theorem Scope.locate_among {s : Scope} {l : SourceLine} (hs : S s)
    (hl : l ∈ sourceLines s.source.text) : (s.locate l).Among S := ⟨s, hs, rfl, hl⟩

theorem ParseError.among_of_blame {e : ParseError} {l : Location} (he : e.blame? = some l)
    (hl : l.Among S) : e.Among S := fun l' hl' => by
  rw [he] at hl'
  exact Option.some.inj hl' ▸ hl

theorem ParseError.among_of_not_blame {e : ParseError} (he : e.blame? = none) : e.Among S :=
  fun l hl => by rw [he] at hl; cases hl

/-! ### Each line keeps them -/

theorem SourceLine.eq_text_of_meaning {l : SourceLine} {text : String}
    (h : l.meaning = .step text) : text = l.text := by
  rcases l.kind with ho | hc | hn | hs
  · rw [meaning_of_opens ho] at h
    cases h
  · rw [meaning_of_closes hc] at h
    cases h
  · rcases meaning_of_isNote hn with hm | ⟨target, hm⟩
    · rw [hm] at h
      cases h
    · rw [hm] at h
      cases h
  · rw [meaning_of_isStep hs] at h
    exact (Line.step.inj h).symm

theorem gives_blockCount {l : Location} (hl : l.Among S) (count : Option String) :
    Gives (ParseError.Among S) (fun _ => True) (blockCount l count) := by
  unfold blockCount
  split
  · trivial
  · split
    · trivial
    · exact ParseError.among_of_blame rfl hl

theorem located_repeatBlock {l : Location} (hl : l.Among S) (count : Nat) {body : List Instruction}
    (hbody : ∀ i ∈ body, i.Among S) : Located S (repeatBlock l count body) := by
  unfold repeatBlock
  split
  · exact hbody
  · split
    · intro i hi
      obtain ⟨copy, hcopy, hi⟩ := List.mem_flatten.mp hi
      rw [List.eq_of_mem_replicate hcopy] at hi
      exact hbody i hi
    · exact ParseError.among_of_blame rfl hl

/-- Everything given so far is among the texts, and the open blocks were opened in this one. -/
structure Progress.Located (S : Scope → Prop) (s : Scope) (pr : Progress) : Prop where
  given : ∀ i ∈ pr.given, i.Among S
  before : ∀ b ∈ pr.blocks, ∀ i ∈ b.before, i.Among S
  opening : ∀ b ∈ pr.blocks, b.opening ∈ sourceLines s.source.text

variable {s : Scope} {inclusion : SourceLine → String → Except ParseError (List Instruction)}
  {l : SourceLine} {pr : Progress}

theorem located_ofLine (hs : S s) (hl : l ∈ sourceLines s.source.text)
    (hread : ∀ target, Located S (inclusion l target)) : Located S (ofLine s inclusion l) := by
  unfold ofLine
  split
  · next text hm =>
    split
    · exact ParseError.among_of_blame rfl (Scope.locate_among hs hl)
    · intro i hi
      rw [List.mem_singleton.mp hi, SourceLine.eq_text_of_meaning hm]
      exact ⟨s, hs, rfl, rfl, hl⟩
  · exact hread _
  · exact fun i hi => by cases hi

theorem Progress.Located.take (h : pr.Located S s) (hs : S s)
    (hl : l ∈ sourceLines s.source.text) (hread : ∀ target, RunFile.Located S (inclusion l target)) :
    Gives (ParseError.Among S) (Progress.Located S s) (pr.take s inclusion l) := by
  have hblame : (s.locate l).Among S := Scope.locate_among hs hl
  by_cases ho : l.Opens
  · rw [Progress.take_of_opens ho]
    refine ⟨fun i hi => (List.not_mem_nil hi).elim, fun b hb => ?_, fun b hb => ?_⟩
    · rcases List.mem_cons.mp hb with rfl | hb
      · exact h.given
      · exact h.before b hb
    · rcases List.mem_cons.mp hb with rfl | hb
      · exact hl
      · exact h.opening b hb
  by_cases hc : l.Closes
  · rw [Progress.take_of_closes hc]
    split
    · exact ParseError.among_of_blame rfl hblame
    · next b outer hblocks =>
      have hmem : ∀ b' ∈ outer, b' ∈ pr.blocks := fun b' hb' =>
        hblocks ▸ List.mem_cons_of_mem b hb'
      refine (gives_blockCount hblame _).bind fun n _ => ?_
      refine (located_repeatBlock hblame n h.given).bind fun all hall => ?_
      refine ⟨fun i hi => ?_, fun b' hb' => h.before b' (hmem b' hb'),
        fun b' hb' => h.opening b' (hmem b' hb')⟩
      rcases List.mem_append.mp hi with hi | hi
      · exact h.before b (hblocks ▸ List.mem_cons_self) i hi
      · exact hall i hi
  · rw [Progress.take_of_not_mark ⟨ho, hc⟩]
    refine (located_ofLine hs hl hread).bind fun here hhere => ?_
    refine ⟨fun i hi => ?_, h.before, h.opening⟩
    rcases List.mem_append.mp hi with hi | hi
    · exact h.given i hi
    · exact hhere i hi

theorem Progress.Located.finish (h : pr.Located S s) (hs : S s) :
    RunFile.Located S (pr.finish s) := by
  unfold Progress.finish
  split
  · exact h.given
  · next b outer hblocks =>
    have hopening := h.opening b (hblocks ▸ List.mem_cons_self)
    exact ParseError.among_of_blame rfl (Scope.locate_among hs hopening)

/-! ### Texts and files -/

theorem located_scan (hs : S s) (hread : ∀ l target, l ∈ sourceLines s.source.text →
      Located S (inclusion l target)) {ls : List SourceLine}
    (hls : ∀ l ∈ ls, l ∈ sourceLines s.source.text) (h : pr.Located S s) :
    Located S (scan s inclusion pr ls) := by
  induction ls generalizing pr with
  | nil => exact h.finish hs
  | cons l r ih =>
    have hl := hls l List.mem_cons_self
    refine (h.take hs hl fun target => hread l target hl).bind fun pr' hpr' => ?_
    exact ih (fun m hm => hls m (List.mem_cons_of_mem l hm)) hpr'

variable {files : FileTree} {read : Path → Except ParseError (List Instruction)}

theorem located_included (hs : S s) (hl : l ∈ sourceLines s.source.text) (target : String)
    (hread : ∀ q, Located S (read q)) : Located S (included files read s l target) := by
  unfold included
  split
  · exact hread _
  · exact ParseError.among_of_blame rfl (Scope.locate_among hs hl)

theorem located_readText {p : Path} {text : String} (hs : S (fileScope p text))
    (hread : ∀ q, Located S (read q)) : Located S (readText files read p text) := by
  have hbalance : Gives (ParseError.Among S) (fun _ => True)
      (checkBalance (fileScope p text).source) := by
    unfold checkBalance
    dsimp only
    split
    · trivial
    · exact ParseError.among_of_not_blame rfl
  rw [readText_eq, flatten_eq_scan]
  refine hbalance.bind fun _ _ => ?_
  refine located_scan hs (fun l target hl => located_included hs hl target hread) (fun l hl => hl)
    ⟨?_, ?_, ?_⟩
  all_goals exact fun x hx => (List.not_mem_nil hx).elim

/-- Reading a file points at lines of files that can be read. -/
theorem located_readFile (hS : ∀ p text, HasText files p text → S (fileScope p text))
    (chain : List Path) (p : Path) : Located S (readFile files chain p) := by
  -- Each file on the chain leaves fewer that can be entered.
  induction hn : unvisited chain using Nat.strongRecOn generalizing chain p with
  | _ n ih =>
    rw [readFile]
    split
    · exact ParseError.among_of_not_blame rfl
    · next place content hfile =>
      split
      · exact ParseError.among_of_not_blame rfl
      · next text htext =>
        dsimp only
        split
        · exact ParseError.among_of_not_blame rfl
        · next hc =>
          have hless := unvisited_cons_lt (fits_identity hfile) (Bool.eq_false_iff.mpr hc)
          exact located_readText (hS p text ⟨place, content, hfile, htext⟩) fun q =>
            ih _ (hn ▸ hless) _ q rfl

end

/-! ### Runs of the parser and the compiler -/

/-- What a parse starts from: a run-file, or a text that is read as if it stood in a file. -/
inductive Origin where
  | file (p : Path)
  | text (p : Path) (content : String)

namespace Origin

variable {files : FileTree}

def parse (files : FileTree) : Origin → Except ParseError (List Instruction)
  | .file p => parseFile files p
  | .text p content => parseText files p content

/-- The text is one that a parse may read as that of the file. -/
def Reads (files : FileTree) (o : Origin) (p : Path) (content : String) : Prop :=
  HasText files p content ∨ o = .text p content

/-- File, source, line number, span and text of an instruction all tell of the same line. -/
structure Places (files : FileTree) (o : Origin) (i : Instruction) : Prop where
  source : ∃ content, o.Reads files i.file content ∧
    i.source = ⟨i.file.text, dropByteOrderMark content⟩
  text : i.source.Shows i.span i.text
  line : i.line = lineAt i.source.text i.span.start

/-- A fault with a span has a source, which shows a line there. -/
def Locates (files : FileTree) (o : Origin) (f : Fault) : Prop :=
  ∀ sp, f.span = some sp → ∃ p content line, o.Reads files p content ∧
    f.source = some ⟨p.text, dropByteOrderMark content⟩ ∧
    (⟨p.text, dropByteOrderMark content⟩ : Source).Shows sp line

/-- The texts a parse may read. -/
def scopes (files : FileTree) (o : Origin) (s : Scope) : Prop :=
  ∃ p content, o.Reads files p content ∧ s = fileScope p content

theorem located_parse (files : FileTree) (o : Origin) :
    Located (o.scopes files) (o.parse files) := by
  have hfiles : ∀ p content, HasText files p content → o.scopes files (fileScope p content) :=
    fun p content h => ⟨p, content, .inl h, rfl⟩
  cases o with
  | file p => exact located_readFile hfiles [] p
  | text p content =>
    have hroot : (Origin.text p content).scopes files (fileScope p content) :=
      ⟨p, content, .inr rfl, rfl⟩
    exact located_readText hroot fun q => located_readFile hfiles _ q

theorem places_of_among {o : Origin} {i : Instruction} (h : i.Among (o.scopes files)) :
    o.Places files i := by
  obtain ⟨s, ⟨p, content, hreads, rfl⟩, hfile, hsource, hline⟩ := h
  have hpath : i.file = p := hfile
  subst hpath
  rw [← hsource] at hline
  obtain ⟨hshows, hnumber⟩ := shows_of_mem_sourceLines hline
  exact ⟨⟨content, hreads, hsource⟩, hshows, hnumber⟩

theorem exists_shows_of_among {o : Origin} {l : Location} (h : l.Among (o.scopes files)) :
    ∃ p content line, o.Reads files p content ∧
      l.source = ⟨p.text, dropByteOrderMark content⟩ ∧
      (⟨p.text, dropByteOrderMark content⟩ : Source).Shows l.line.span line := by
  obtain ⟨s, ⟨p, content, hreads, rfl⟩, hsource, hline⟩ := h
  exact ⟨p, content, _, hreads, hsource, (shows_of_mem_sourceLines hline).1⟩

end Origin

/-- A run-file is refused for one of its lines. -/
theorem exists_blame_of_compileAll {files : FileTree} {root : Path} {is : List Instruction}
    {e : CompileError} (h : Step.compileAll files root is = .error e) :
    ∃ i ∈ is, e.blame = i.location := by
  obtain ⟨front, i, back, rfl, -, hi⟩ := Step.compileAll_eq_error_iff.mp h
  refine ⟨i, List.mem_append_right front List.mem_cons_self, ?_⟩
  cases (Step.compile_eq_error_iff (Text.splitAt_eq_iff.mp rfl)).mp hi with
  | name => rfl
  | repeats => rfl

/-- Instructions, parse errors and compile errors all point at lines of the texts that were read:
the text under a span is one whole line, trimmed and not empty, and its number is that of the
instruction. -/
theorem parse_points_at_lines (files : FileTree) (o : Origin) (root : Path) :
    (∀ is, o.parse files = .ok is → ∀ i ∈ is, o.Places files i) ∧
    (∀ e, o.parse files = .error e → o.Locates files e.fault) ∧
    ∀ is e, o.parse files = .ok is → Step.compileAll files root is = .error e →
      o.Locates files e.fault := by
  have hlocated := o.located_parse files
  refine ⟨fun is hok i hi => ?_, fun e herror sp hspan => ?_, fun is e hok herror sp hspan => ?_⟩
  · rw [hok] at hlocated
    exact Origin.places_of_among (hlocated i hi)
  · rw [herror] at hlocated
    obtain ⟨hspans, hsources⟩ := e.fault_of_blame
    rw [hspans] at hspan
    obtain ⟨l, hl, rfl⟩ := Option.map_eq_some_iff.mp hspan
    obtain ⟨p, content, line, hreads, hsource, hshows⟩ :=
      Origin.exists_shows_of_among (hlocated l hl)
    exact ⟨p, content, line, hreads, hsource ▸ hsources l hl, hshows⟩
  · rw [hok] at hlocated
    obtain ⟨i, hi, hblame⟩ := exists_blame_of_compileAll herror
    obtain ⟨hspans, hsources⟩ := e.fault_of_blame
    rw [hblame] at hspans hsources
    obtain rfl := Option.some.inj (hspans.symm.trans hspan)
    obtain ⟨p, content, line, hreads, hsource, hshows⟩ :=
      Origin.exists_shows_of_among (hlocated i hi).location
    exact ⟨p, content, line, hreads, hsource ▸ hsources, hshows⟩

/-- A line behind a blank of three bytes, included in a block that is repeated, and a closing line
without a block. -/
theorem parse_points_at_included_line :
    let files : FileTree :=
      ⟨[(["w", "a.run"], .file (.text "\ufeff(\r\n;INCLUDE::b.run\n)*2\r\n")),
        (["w", "b.run"], .file (.text "\ufeff; é\n\u3000A \r\n"))], ["w"]⟩
    let o : Origin := .file ⟨"a.run"⟩
    let i : Instruction := ⟨"A", ⟨"b.run"⟩, 2, ⟨8, 9⟩, ⟨"b.run", "; é\n\u3000A \r\n"⟩⟩
    let badName : CompileError := .badName i "A" 1
    let o' : Origin := .text ⟨"c.run"⟩ "é\n\u3000)\n("
    let unexpected : ParseError :=
      .unexpectedClose ⟨⟨"c.run", "é\n\u3000)\n("⟩, ⟨")", 2, ⟨6, 7⟩⟩⟩
    (o.parse files = .ok [i, i] ∧ o.Places files i) ∧
    (Step.compileAll files ⟨""⟩ [i, i] = .error badName ∧ o.Locates files badName.fault) ∧
    o'.parse files = .error unexpected ∧ o'.Locates files unexpected.fault := by
  intro files o i badName o' unexpected
  have ha : files.file? ⟨"a.run"⟩ =
      some (["w", "a.run"], .text "\ufeff(\r\n;INCLUDE::b.run\n)*2\r\n") :=
    FileTree.file?_of_leads ["w"] ["a.run"] (by decide +kernel) (.file (by decide +kernel) rfl) rfl
  have hb : files.file? ⟨"b.run"⟩ = some (["w", "b.run"], .text "\ufeff; é\n\u3000A \r\n") :=
    FileTree.file?_of_leads ["w"] ["b.run"] (by decide +kernel) (.file (by decide +kernel) rfl) rfl
  have hshort : ∀ place ∈ files.cwd.inits ++ files.entries.map Prod.fst,
      FileTree.fits (FileTree.pathOf place) := by decide +kernel
  let note : SourceLine := ⟨"; é", 1, ⟨0, 4⟩⟩
  let line : SourceLine := ⟨"A", 2, ⟨8, 9⟩⟩
  let directive : SourceLine := ⟨";INCLUDE::b.run", 2, ⟨3, 18⟩⟩
  let tb : Forest := .leaf note (by decide) (.leaf line (by decide) .empty)
  let ta : Forest := .block ⟨"(", 1, ⟨0, 1⟩⟩ (by decide) (.leaf directive (by decide) .empty)
    ⟨")*2", 3, ⟨19, 22⟩⟩ (by decide) .empty
  have hreadb : readFile files [identity files ⟨"a.run"⟩] ⟨"b.run"⟩ = .ok [i] := by
    refine readFile_eq_ok_iff.mpr ⟨_, ⟨_, _, hb, rfl⟩, ?_, tb, _, .of_plain (by decide +kernel)
      (by decide +kernel) (by decide +kernel) (by decide +kernel) (by decide +kernel),
      by decide +kernel⟩
    rw [identity_of_file? hshort ha, identity_of_file? hshort hb]
    rfl
  have hparse : o.parse files = .ok [i, i] := by
    refine readFile_eq_ok_iff.mpr ⟨_, ⟨_, _, ha, rfl⟩, rfl, ta, fun _ => [i],
      ⟨by decide +kernel, by decide +kernel, fun l hl hd => ?_, fun l hl target hm => ?_,
        by decide +kernel⟩, rfl⟩
    · obtain rfl := List.mem_singleton.mp hl
      exact absurd (by decide +kernel : directive.IsDirective) hd
    · obtain rfl := List.mem_singleton.mp hl
      rw [show directive.meaning = .inclusion "b.run" by decide +kernel] at hm
      cases hm
      exact ⟨⟨"b.run"⟩, ⟨by rw [FileTree.isFile, hb]; rfl, .inl rfl⟩, hreadb⟩
  have hcompile : Step.compileAll files ⟨""⟩ [i, i] = .error badName := by
    decide +kernel
  have hparse' : o'.parse files = .error unexpected := by
    show parseText files ⟨"c.run"⟩ "é\n\u3000)\n(" = _
    rw [parseText, readText_eq, flatten_eq_scan]
    decide +kernel
  obtain ⟨hplaces, -, hcompiled⟩ := parse_points_at_lines files o ⟨""⟩
  refine ⟨⟨hparse, hplaces _ hparse i List.mem_cons_self⟩,
    ⟨hcompile, hcompiled _ _ hparse hcompile⟩, hparse', ?_⟩
  exact (parse_points_at_lines files o' ⟨""⟩).2.1 unexpected hparse'

end StepRunner.RunFile
