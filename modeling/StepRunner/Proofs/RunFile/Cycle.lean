import StepRunner.Proofs.RunFile.Inclusion

/-!
# Cycles of inclusion

While a run-file is read, the files that are open were each included by the one before, from the
first on (`Opened`), and no file is open twice. A cycle is reported if and only if the traversal,
with nothing that looks out for cycles, would open a file again (`parseFile_cycle`).
-/

namespace StepRunner.RunFile

open Moment

variable {files : FileTree} {p q : Path} {f : Frame} {outer : List Frame} {m : Moment}

/-! ### Open files -/

/-- A file some of whose lines have been taken up. -/
structure Frame.Of (files : FileTree) (p : Path) (f : Frame) : Prop where
  text : ∃ text, HasText files p text ∧ f.scope = fileScope p text ∧
    f.rest <:+ sourceLines (fileScope p text).source.text
  key : f.key = identity files p

/-- No open file is the one with this key. -/
def Fresh (outer : List Frame) (key : Path) : Prop := onChain (outer.map Frame.key) key = false

/-- The open files lead from `p` to the inclusion of a file. The innermost stands first. -/
inductive Opened (files : FileTree) (p : Path) : Path → List Frame → Prop
  | root : Opened files p p []
  | inner {a q f outer} : Opened files p a outer → f.Of files a → Fresh outer f.key →
      Includes files a q → Opened files p q (f :: outer)

/-- What holds whenever a file is about to be opened or a line about to be taken up. -/
def Moment.Sound (files : FileTree) (p : Path) : Moment → Prop
  | entering q outer => Opened files p q outer
  | reading f outer => ∃ a, Opened files p a outer ∧ f.Of files a ∧ Fresh outer f.key
  | done _ => True

theorem Frame.of_enter (h : Frame.enter files (outer.map Frame.key) q = .ok f) :
    f.Of files q ∧ Fresh outer f.key := by
  obtain ⟨text, htext, hfresh, -, rfl⟩ := Frame.enter_eq_ok_iff.mp h
  exact ⟨⟨⟨text, htext, rfl, List.suffix_refl _⟩, rfl⟩, hfresh⟩

theorem Moment.Sound.resume {r : Except ParseError (List Instruction)} {a : Path}
    (h : Opened files p a outer) : (resume r outer).Sound files p := by
  cases h with
  | root => trivial
  | inner h hf hfresh =>
    cases r with
    | error e => trivial
    | ok is => exact ⟨_, h, ⟨hf.text, hf.key⟩, hfresh⟩

theorem Moment.Sound.next (h : m.Sound files p) : (next files m).Sound files p := by
  cases m with
  | done r => trivial
  | entering q outer =>
    rw [Moment.next]
    cases henter : Frame.enter files (outer.map Frame.key) q with
    | error e => trivial
    | ok f => exact ⟨q, h, Frame.of_enter henter⟩
  | reading f outer =>
    obtain ⟨s, key, pr, rest⟩ := f
    obtain ⟨a, hopened, ⟨⟨text, htext, rfl, hrest⟩, hkey⟩, hfresh⟩ := h
    cases rest with
    | nil => exact .resume hopened
    | cons l r =>
      have hl : l ∈ sourceLines (fileScope a text).source.text := hrest.subset List.mem_cons_self
      have hr := (List.suffix_cons l r).trans hrest
      by_cases hm : ∃ target, l.meaning = .inclusion target
      · obtain ⟨target, hm⟩ := hm
        rw [next_reading_of_inclusion hm]
        cases hq : resolveInclude files (fileScope a text) target with
        | none => trivial
        | some q =>
          have hincludes : Includes files a q :=
            ⟨text, htext, l, hl, target, hm, resolveInclude_eq_some_iff.mp hq⟩
          exact .inner hopened ⟨⟨text, htext, rfl, hr⟩, hkey⟩ hfresh hincludes
      · rw [next_reading_of_other fun target h => hm ⟨target, h⟩]
        cases pr.take (fileScope a text) (fun _ _ => .ok []) l with
        | error e => trivial
        | ok pr => exact ⟨a, hopened, ⟨⟨text, htext, rfl, hr⟩, hkey⟩, hfresh⟩

theorem sound_iterate (files : FileTree) (p : Path) (n : Nat) :
    ((next files)^[n] (entering p [])).Sound files p := by
  induction n with
  | zero => exact .root
  | succ n ih =>
    rw [Function.iterate_succ_apply']
    exact ih.next

theorem opened_of_iterate {n : Nat} (h : (next files)^[n] (entering p []) = entering q outer) :
    Opened files p q outer := by
  have hsound := sound_iterate files p n
  rw [h] at hsound
  exact hsound

/-! ### What is reported -/

section

variable {chain path : List Path}

theorem checkBalance_ne_cycle {source : Source} :
    checkBalance source ≠ .error (.cycle q path) := by
  intro h
  rw [checkBalance] at h
  split at h <;> cases h

theorem Frame.enter_eq_cycle_iff :
    Frame.enter files chain p = .error (.cycle q path) ↔ p = q ∧ (∃ text, HasText files p text) ∧
      onChain chain (identity files p) = true ∧ path = chain.reverse ++ [identity files p] := by
  constructor
  · intro h
    rcases exists_text_or_enter files p with ⟨text, htext⟩ | ⟨e, hne, henter⟩
    · rw [enter_of_text htext] at h
      split at h
      · next hc =>
        cases h
        exact ⟨rfl, ⟨text, htext⟩, hc, rfl⟩
      · rcases bind_eq_error_iff.mp h with h | ⟨_, -, h⟩
        · exact absurd h checkBalance_ne_cycle
        · cases h
    · rw [henter] at h
      cases h
      exact absurd rfl (hne q path)
  · rintro ⟨rfl, ⟨text, htext⟩, hc, rfl⟩
    rw [enter_of_text htext, if_pos hc]

theorem blockCount_ne_cycle {l : Location} {count : Option String} :
    blockCount l count ≠ .error (.cycle q path) := by
  intro h
  unfold blockCount at h
  split at h
  · cases h
  · split at h <;> cases h

theorem repeatBlock_ne_cycle {l : Location} {n : Nat} {body : List Instruction} :
    repeatBlock l n body ≠ .error (.cycle q path) := by
  intro h
  unfold repeatBlock at h
  split at h
  · cases h
  · split at h <;> cases h

theorem ofLine_ne_cycle {s : Scope} {l : SourceLine} :
    ofLine s (fun _ _ => .ok []) l ≠ .error (.cycle q path) := by
  intro h
  unfold ofLine at h
  split at h
  · split at h <;> cases h
  all_goals cases h

theorem Progress.take_ne_cycle {s : Scope} {l : SourceLine} {pr : Progress} :
    pr.take s (fun _ _ => .ok []) l ≠ .error (.cycle q path) := by
  intro h
  unfold take at h
  split at h
  · cases h
  · split at h
    · cases h
    · rcases bind_eq_error_iff.mp h with h | ⟨n, -, h⟩
      · exact blockCount_ne_cycle h
      · rcases bind_eq_error_iff.mp h with h | ⟨all, -, h⟩
        · exact repeatBlock_ne_cycle h
        · cases h
  · rcases bind_eq_error_iff.mp h with h | ⟨here, -, h⟩
    · exact ofLine_ne_cycle h
    · cases h

theorem Progress.finish_ne_cycle {s : Scope} {pr : Progress} :
    pr.finish s ≠ .error (.cycle q path) := by
  intro h
  rw [finish] at h
  split at h <;> cases h

/-- A cycle is met only where a file is about to be opened. -/
theorem eq_cycle_or_entering_of_next (h : next files m = done (.error (.cycle q path))) :
    m = done (.error (.cycle q path)) ∨ ∃ outer, m = entering q outer ∧
      Frame.enter files (outer.map Frame.key) q = .error (.cycle q path) := by
  cases m with
  | done r => exact .inl h
  | entering p outer =>
    rw [Moment.next] at h
    split at h
    · cases h
    · next e henter =>
      cases h
      obtain ⟨rfl, -⟩ := Frame.enter_eq_cycle_iff.mp henter
      exact .inr ⟨outer, rfl, henter⟩
  | reading f outer =>
    exfalso
    obtain ⟨s, key, pr, rest⟩ := f
    cases rest with
    | nil =>
      cases hfinish : pr.finish s with
      | error e =>
        simp only [Moment.next, hfinish, resume_error, done.injEq, Except.error.injEq] at h
        exact Progress.finish_ne_cycle (h ▸ hfinish)
      | ok is =>
        simp only [Moment.next, hfinish] at h
        cases outer <;> cases h
    | cons l r =>
      by_cases hm : ∃ target, l.meaning = .inclusion target
      · obtain ⟨target, hm⟩ := hm
        rw [next_reading_of_inclusion hm] at h
        split at h <;> cases h
      · rw [next_reading_of_other fun target h => hm ⟨target, h⟩] at h
        split at h
        · cases h
        · next htake =>
          cases h
          exact Progress.take_ne_cycle htake

theorem exists_entering_of_cycle (h : parseFile files p = .error (.cycle q path)) :
    ∃ n outer, (next files)^[n] (entering p []) = entering q outer ∧
      Frame.enter files (outer.map Frame.key) q = .error (.cycle q path) := by
  obtain ⟨n, hn⟩ := comesTo_done_iff.mpr h
  induction n with
  | zero => cases hn
  | succ n ih =>
    rw [Function.iterate_succ_apply'] at hn
    rcases eq_cycle_or_entering_of_next hn with hn | ⟨outer, hn, henter⟩
    · exact ih hn
    · exact ⟨n, outer, hn, henter⟩

end

/-! ### The traversal without a lookout -/

/-- One step of a traversal that may open a file again. -/
def nextUnguarded (files : FileTree) : Moment → Moment
  | entering p outer =>
    match Frame.enter files [] p with
    | .ok f => reading f outer
    | .error e => done (.error e)
  | m => next files m

theorem nextUnguarded_eq (h : ∀ q path, next files m ≠ done (.error (.cycle q path))) :
    nextUnguarded files m = next files m := by
  cases m with
  | done r => rfl
  | reading f outer => rfl
  | entering p outer =>
    have henter : Frame.enter files [] p = Frame.enter files (outer.map Frame.key) p := by
      rcases Frame.exists_text_or_enter files p with ⟨text, htext⟩ | ⟨e, -, henter⟩
      · have hc : ¬ onChain (outer.map Frame.key) (identity files p) = true := fun hc =>
          h p _ (by rw [next, Frame.enter_eq_cycle_iff.mpr ⟨rfl, ⟨text, htext⟩, hc, rfl⟩])
        rw [Frame.enter_of_text htext, Frame.enter_of_text htext, if_neg hc]
        rfl
      · rw [henter, henter]
    cases h : Frame.enter files (outer.map Frame.key) p with
    | ok f => simp only [nextUnguarded, next, henter, h]
    | error e => simp only [nextUnguarded, next, henter, h]

/-- Up to the first cycle nothing is different. -/
theorem iterate_nextUnguarded {n : Nat}
    (h : ∀ q path, (next files)^[n] m ≠ done (.error (.cycle q path))) :
    (nextUnguarded files)^[n] m = (next files)^[n] m := by
  induction n with
  | zero => rfl
  | succ n ih =>
    rw [Function.iterate_succ_apply'] at h
    rw [Function.iterate_succ_apply', Function.iterate_succ_apply',
      ih fun q path hn => h q path (by rw [hn, next]), nextUnguarded_eq h]

/-! ### Cycles -/

/-- The file about to be opened is open. -/
def Repeats (files : FileTree) (q : Path) (outer : List Frame) : Prop :=
  ∃ f ∈ outer, ∃ k k', files.canonical f.scope.path = .ok k ∧ files.canonical q = .ok k' ∧
    k.alike k' = true

theorem HasText.isFile {text : String} (h : HasText files p text) : files.isFile p = true := by
  obtain ⟨place, content, hfile, -⟩ := h
  rw [FileTree.isFile, hfile]
  rfl

theorem identity_eq_of_canonical {k : Path} (h : files.canonical p = .ok k) :
    identity files p = k := by
  rw [identity, h]

theorem canonical_eq_identity (h : files.TellsApart) (hp : files.isFile p = true) :
    files.canonical p = .ok (identity files p) := by
  obtain ⟨k, hk⟩ := h.total p hp
  rw [identity_eq_of_canonical hk, hk]

namespace Frame.Of

theorem path (hf : f.Of files p) : f.scope.path = p := by
  obtain ⟨text, -, hscope, -⟩ := hf.text
  rw [hscope, fileScope]

theorem isFile (hf : f.Of files p) : files.isFile p = true := by
  obtain ⟨text, htext, -⟩ := hf.text
  exact htext.isFile

theorem canonical (hf : f.Of files p) (h : files.TellsApart) : files.canonical p = .ok f.key :=
  hf.key ▸ canonical_eq_identity h hf.isFile

end Frame.Of

theorem fresh_iff {key : Path} : Fresh outer key ↔ ∀ f ∈ outer, f.key.alike key = false := by
  simp only [Fresh, onChain, List.any_map, List.any_eq_false, Function.comp_apply,
    Bool.not_eq_true]

namespace Opened

theorem reaches (h : Opened files p q outer) : Reaches files p q := by
  induction h with
  | root => exact .refl
  | inner _ _ _ hincludes ih => exact ih.tail hincludes

theorem of_mem (h : Opened files p q outer) (hf : f ∈ outer) :
    ∃ a, f.Of files a ∧ Reaches files p a ∧ Relation.TransGen (Includes files) a q := by
  induction h with
  | root => cases hf
  | inner hopened hof _ hincludes ih =>
    rcases List.mem_cons.mp hf with rfl | hf
    · exact ⟨_, hof, hopened.reaches, .single hincludes⟩
    · obtain ⟨a, hof, hpa, haq⟩ := ih hf
      exact ⟨a, hof, hpa, haq.tail hincludes⟩

theorem distinct (h : Opened files p q outer) :
    outer.Pairwise fun f g => g.key.alike f.key = false := by
  induction h with
  | root => exact .nil
  | inner _ _ hfresh _ ih => exact .cons (fresh_iff.mp hfresh) ih

theorem chain (h : Opened files p q outer) :
    (q :: outer.map (·.scope.path)).getLast? = some p ∧
      (q :: outer.map (·.scope.path)).IsChain fun b a => Includes files a b := by
  induction h with
  | root => exact ⟨rfl, .singleton _⟩
  | inner _ hf _ hincludes ih =>
    rw [List.map_cons, hf.path, List.getLast?_cons_cons, List.isChain_cons_cons]
    exact ⟨ih.1, hincludes, ih.2⟩

theorem map_canonical (h : Opened files p q outer) (hcanonical : files.TellsApart) :
    (outer.map (·.scope.path)).map files.canonical = (outer.map Frame.key).map .ok := by
  rw [List.map_map, List.map_map]
  refine List.map_congr_left fun f hf => ?_
  obtain ⟨a, hof, -⟩ := h.of_mem hf
  rw [Function.comp_apply, Function.comp_apply, hof.path, hof.canonical hcanonical]

/-- A file that is met again includes itself, be it through others. -/
theorem of_repeats (h : Opened files p q outer) (hcanonical : files.TellsApart)
    (hrepeats : Repeats files q outer) : ∃ f ∈ outer, ∃ a, f.Of files a ∧ Reaches files p a ∧
      Relation.TransGen (Includes files) a q ∧ files.file? a = files.file? q ∧
        f.key.alike (identity files q) = true := by
  obtain ⟨f, hf, k, k', hk, hk', halike⟩ := hrepeats
  obtain ⟨a, hof, hpa, haq⟩ := h.of_mem hf
  have hq : files.isFile q = true := by
    obtain ⟨b, -, text, -, l, -, target, -, hnames⟩ := Relation.TransGen.tail'_iff.mp haq
    exact hnames.1
  rw [hof.path] at hk
  refine ⟨f, hf, a, hof, hpa, haq, (hcanonical.exact _ _ _ _ hof.isFile hq hk hk').mp halike, ?_⟩
  rw [hof.key, identity_eq_of_canonical hk, identity_eq_of_canonical hk', halike]

/-- A file is open if and only if opening it again is a cycle. -/
theorem repeats_iff (h : Opened files p q outer) (hcanonical : files.TellsApart) :
    Repeats files q outer ↔
      ∃ path, Frame.enter files (outer.map Frame.key) q = .error (.cycle q path) := by
  simp only [Frame.enter_eq_cycle_iff, onChain, List.any_map, List.any_eq_true, true_and]
  constructor
  · intro hrepeats
    obtain ⟨f, hf, a, hof, -, -, hsame, halike⟩ := h.of_repeats hcanonical hrepeats
    obtain ⟨text, ⟨place, content, hfile, htext⟩, -⟩ := hof.text
    exact ⟨_, ⟨text, place, content, hsame ▸ hfile, htext⟩, ⟨f, hf, halike⟩, rfl⟩
  · rintro ⟨-, ⟨text, htext⟩, ⟨f, hf, halike⟩, -⟩
    obtain ⟨a, hof, -⟩ := h.of_mem hf
    exact ⟨f, hf, f.key, identity files q, hof.path.symm ▸ hof.canonical hcanonical,
      canonical_eq_identity hcanonical htext.isFile, halike⟩

end Opened

theorem Moment.Sound.frames (h : m.Sound files p) :
    (∀ f ∈ m.frames, ∃ a, f.Of files a) ∧
      m.frames.Pairwise fun f g => g.key.alike f.key = false := by
  cases m with
  | done r => exact ⟨fun f hf => absurd hf List.not_mem_nil, .nil⟩
  | entering q outer =>
    exact ⟨fun f hf => (h.of_mem hf).imp fun a ha => ha.1, h.distinct⟩
  | reading f outer =>
    obtain ⟨a, hopened, hf, hfresh⟩ := h
    refine ⟨fun g hg => ?_, .cons (fresh_iff.mp hfresh) hopened.distinct⟩
    rcases List.mem_cons.mp hg with rfl | hg
    · exact ⟨a, hf⟩
    · exact (hopened.of_mem hg).imp fun a ha => ha.1

/-- Where a cycle is reported, a file was about to be opened that is open. -/
theorem exists_repeats_of_cycle {path : List Path} (h : files.TellsApart)
    (hp : parseFile files p = .error (.cycle q path)) :
    ∃ n outer, (next files)^[n] (entering p []) = entering q outer ∧ Opened files p q outer ∧
      Repeats files q outer ∧ path = (outer.map Frame.key).reverse ++ [identity files q] ∧
      files.canonical q = .ok (identity files q) := by
  obtain ⟨n, outer, hn, henter⟩ := exists_entering_of_cycle hp
  have hopened := opened_of_iterate hn
  obtain ⟨-, ⟨text, htext⟩, -, hpath⟩ := Frame.enter_eq_cycle_iff.mp henter
  exact ⟨n, outer, hn, hopened, (hopened.repeats_iff h).mpr ⟨path, henter⟩, hpath,
    canonical_eq_identity h htext.isFile⟩

theorem parseFile_of_repeats {n : Nat} (h : files.TellsApart)
    (hn : (nextUnguarded files)^[n] (entering p []) = entering q outer)
    (hrepeats : Repeats files q outer) : ∃ q path, parseFile files p = .error (.cycle q path) := by
  by_contra hnone
  have hne : ∀ n q path, (next files)^[n] (entering p []) ≠ done (.error (.cycle q path)) :=
    fun n q path hdone => hnone ⟨q, path, comesTo_done_iff.mp ⟨n, hdone⟩⟩
  rw [iterate_nextUnguarded (hne n)] at hn
  have hopened := opened_of_iterate hn
  obtain ⟨path, henter⟩ := (hopened.repeats_iff h).mp hrepeats
  exact hne (n + 1) q path (by rw [Function.iterate_succ_apply', hn, next, henter])

/-- Reading ends, and all the time the open files are told apart by their paths from the root. It
ends with a cycle if and only if the traversal, with nothing that looks out for cycles, comes to
open a file again; files none of which includes itself, be it through others, give none. The report
names the open files from the first on, and then the one that was met again. -/
theorem parseFile_cycle (files : FileTree) (p : Path) (h : files.TellsApart) :
    (∃ n, (next files)^[n] (entering p []) = done (parseFile files p)) ∧
    (∀ n, let frames := ((next files)^[n] (entering p [])).frames
      (∀ f ∈ frames, files.canonical f.scope.path = .ok f.key) ∧
        frames.Pairwise fun f g => g.key.alike f.key = false) ∧
    ((∃ q path, parseFile files p = .error (.cycle q path)) ↔ ∃ n q outer,
      (nextUnguarded files)^[n] (entering p []) = entering q outer ∧ Repeats files q outer) ∧
    ((∀ a b, Reaches files p a → Relation.TransGen (Includes files) a b →
      files.file? a ≠ files.file? b) → ∀ q path, parseFile files p ≠ .error (.cycle q path)) ∧
    ∀ q path, parseFile files p = .error (.cycle q path) →
      ∃ n outer, (next files)^[n] (entering p []) = entering q outer ∧ Repeats files q outer ∧
        let paths := q :: outer.map (·.scope.path)
        paths.getLast? = some p ∧ paths.IsChain (fun b a => Includes files a b) ∧
        paths.map files.canonical = path.reverse.map .ok ∧
        (ParseError.cycle q path).fault.help =
          some ("Include chain: " ++ " -> ".intercalate (path.map Path.text)) := by
  refine ⟨comesTo_done_iff.mpr rfl, fun n => ?_, ⟨?_, ?_⟩, ?_, ?_⟩
  · obtain ⟨hof, hdistinct⟩ := (sound_iterate files p n).frames
    refine ⟨fun f hf => ?_, hdistinct⟩
    obtain ⟨a, hof⟩ := hof f hf
    rw [hof.path, hof.canonical h]
  · rintro ⟨q, path, hcycle⟩
    obtain ⟨n, outer, hn, -, hrepeats, -⟩ := exists_repeats_of_cycle h hcycle
    refine ⟨n, q, outer, ?_, hrepeats⟩
    rw [iterate_nextUnguarded (fun q path => by rw [hn]; nofun), hn]
  · rintro ⟨n, q, outer, hn, hrepeats⟩
    exact parseFile_of_repeats h hn hrepeats
  · intro hacyclic q path hcycle
    obtain ⟨n, outer, -, hopened, hrepeats, -⟩ := exists_repeats_of_cycle h hcycle
    obtain ⟨f, -, a, -, hpa, haq, hsame, -⟩ := hopened.of_repeats h hrepeats
    exact hacyclic a q hpa haq hsame
  · intro q path hcycle
    obtain ⟨n, outer, hn, hopened, hrepeats, rfl, hq⟩ := exists_repeats_of_cycle h hcycle
    refine ⟨n, outer, hn, hrepeats, hopened.chain.1, hopened.chain.2, ?_, rfl⟩
    rw [List.map_cons, hopened.map_canonical h, hq, List.reverse_append, List.reverse_reverse]
    rfl

/-- A cycle that is closed by a link. -/
theorem parseFile_cycle_by_link :
    let files : FileTree :=
      ⟨[(["w", "a.run"], .file (.text ";INCLUDE::b.run")),
        (["w", "b.run"], .file (.text ";INCLUDE::l.run")), (["w", "l.run"], .link "a.run")], ["w"]⟩
    let path : List Path := [⟨"/w/a.run"⟩, ⟨"/w/b.run"⟩, ⟨"/w/a.run"⟩]
    files.TellsApart ∧ parseFile files ⟨"a.run"⟩ = .error (.cycle ⟨"l.run"⟩ path) ∧
      ∃ n q outer, (nextUnguarded files)^[n] (entering ⟨"a.run"⟩ []) = entering q outer ∧
        Repeats files q outer := by
  intro files path
  have hshort : ∀ place ∈ files.cwd.inits ++ files.entries.map Prod.fst,
      FileTree.fits (FileTree.pathOf place) := by decide +kernel
  have htells : files.TellsApart := FileTree.tellsApart (by decide +kernel) hshort
  have ha : files.file? ⟨"a.run"⟩ = some (["w", "a.run"], .text ";INCLUDE::b.run") :=
    FileTree.file?_of_leads ["w"] ["a.run"] (by decide +kernel) (.file (by decide +kernel) rfl) rfl
  have hb : files.file? ⟨"b.run"⟩ = some (["w", "b.run"], .text ";INCLUDE::l.run") :=
    FileTree.file?_of_leads ["w"] ["b.run"] (by decide +kernel) (.file (by decide +kernel) rfl) rfl
  have hl : files.file? ⟨"l.run"⟩ = some (["w", "a.run"], .text ";INCLUDE::b.run") := by
    refine FileTree.file?_of_leads ["w"] ["l.run"] (by decide +kernel)
      (.along (by decide +kernel) rfl (by decide) ?_) rfl
    rw [show FileTree.startOf "a.run" ["w"] = ["w"] by decide +kernel,
      show FileTree.segments "a.run" = ["a.run"] by decide +kernel]
    exact .file (by decide +kernel) rfl
  -- A file that holds one directive is entered and left for the file that it names.
  have hdown : ∀ {q x text} q' outer, files.file? q = some (x, .text text) →
      onChain (outer.map Frame.key) (FileTree.pathOf x) = false →
      checkBalance (fileScope q text).source = .ok () →
      sourceLines (fileScope q text).source.text = [⟨text, 1, ⟨0, 15⟩⟩] →
      SourceLine.meaning ⟨text, 1, ⟨0, 15⟩⟩ = .inclusion q'.text → files.isFile q' = true →
      (next files)^[2] (entering q outer) =
        entering q' (⟨fileScope q text, FileTree.pathOf x, .start, []⟩ :: outer) := by
    intro q x text q' outer hfile hfresh hbalance hlines hm hq'
    have henter : next files (entering q outer) = reading ⟨fileScope q text, FileTree.pathOf x,
        .start, [⟨text, 1, ⟨0, 15⟩⟩]⟩ outer := by
      rw [next, Frame.enter_of_text ⟨_, _, hfile, rfl⟩, Frame.start,
        identity_of_file? hshort hfile, hfresh, hbalance, hlines]
      rfl
    change next files (next files (entering q outer)) = _
    rw [henter, next_reading_of_inclusion hm, resolveInclude_eq_some_iff.mpr ⟨hq', .inl rfl⟩]
  let fa : Frame :=
    ⟨fileScope ⟨"a.run"⟩ ";INCLUDE::b.run", FileTree.pathOf ["w", "a.run"], .start, []⟩
  have hb₂ : (next files)^[2] (entering ⟨"a.run"⟩ []) = entering ⟨"b.run"⟩ [fa] :=
    hdown _ [] ha rfl rfl (by decide +kernel) (by decide +kernel) (by rw [FileTree.isFile, hb]; rfl)
  have hl₄ := hdown ⟨"l.run"⟩ [fa] hb (by decide +kernel) rfl (by decide +kernel)
    (by decide +kernel) (by rw [FileTree.isFile, hl]; rfl)
  have hkey := identity_of_file? hshort hl
  have hcycle : parseFile files ⟨"a.run"⟩ = .error (.cycle ⟨"l.run"⟩ path) := by
    refine comesTo_done_iff.mp ⟨1 + (2 + 2), ?_⟩
    rw [Function.iterate_add_apply, Function.iterate_add_apply, hb₂, hl₄, Function.iterate_one,
      next, Frame.enter_eq_cycle_iff.mpr
        ⟨rfl, ⟨_, _, _, hl, rfl⟩, by rw [hkey]; decide +kernel, rfl⟩, hkey]
    exact congrArg (fun path => done (.error (.cycle _ path))) (by decide +kernel)
  obtain ⟨-, -, hiff, -⟩ := parseFile_cycle files ⟨"a.run"⟩ htells
  exact ⟨htells, hcycle, hiff.mp ⟨_, _, hcycle⟩⟩

end StepRunner.RunFile
