import StepRunner.Proofs.FileTree.Canonical
import StepRunner.Script.Suite

/-!
# Results of scripts

`Ends` tells the ways a call of a suite can go. A call succeeds if the scope it gets has one of the
two counts, and what is no count counts nothing; for a scope that is `Whole`, with both counts or
without either, that is to have both (`settled_call`). A suite `Keeps` its results over calls that
fail, so after any calls it has those of the last one that succeeded (`calls_keep_results`).
-/

namespace StepRunner.Script

/-! ### Counts in a scope -/

/-- The values that stand for a count. -/
inductive Value.IsCount : Value → Nat → Prop where
  | number (n : Nat) : IsCount (.int n) n
  | items (vs : List Value) : IsCount (.list vs) vs.length

theorem Value.count?_eq_some_iff {v : Value} {n : Nat} : v.count? = some n ↔ v.IsCount n := by
  cases v with
  | int k =>
    rw [count?, Option.ite_none_right_eq_some, Option.some.injEq]
    constructor
    · rintro ⟨hk, rfl⟩
      have hcount := IsCount.number k.toNat
      rwa [Int.toNat_of_nonneg hk] at hcount
    · rintro ⟨⟩
      exact ⟨Int.natCast_nonneg n, Int.toNat_natCast n⟩
  | text s => exact ⟨nofun, nofun⟩
  | list vs =>
    rw [count?, Option.some.injEq]
    exact ⟨fun h => h ▸ .items vs, fun h => by cases h; rfl⟩

namespace Scope

variable {s : Scope} {name : String} {n : Nat}

def Sets (s : Scope) (name : String) : Prop := ∃ v, s.get? name = some v

/-- The variable has a value that stands for a count. -/
def Holds (s : Scope) (name : String) (n : Nat) : Prop := ∃ v, s.get? name = some v ∧ v.IsCount n

theorem bind_count?_eq_some_iff : (s.get? name).bind Value.count? = some n ↔ s.Holds name n := by
  simp only [Option.bind_eq_some_iff, Value.count?_eq_some_iff, Holds]

/-- The count of a variable; one that has none counts nothing. -/
inductive Counted (s : Scope) (name : String) (n : Nat) : Prop where
  | held (h : s.Holds name n)
  | notHeld (h : ∀ m, ¬ s.Holds name m) (hn : n = 0)

theorem counted_iff : s.Counted name n ↔ s.count name = n := by
  rw [count]
  cases hcount : (s.get? name).bind Value.count? with
  | none =>
    have hnone : ∀ m, ¬ s.Holds name m := fun m h => by
      rw [bind_count?_eq_some_iff.mpr h] at hcount
      cases hcount
    constructor
    · rintro (h | ⟨-, rfl⟩)
      · exact absurd h (hnone n)
      · rfl
    · rintro rfl
      exact .notHeld hnone rfl
  | some m =>
    have hm := bind_count?_eq_some_iff.mp hcount
    constructor
    · rintro (h | ⟨h, -⟩)
      · rw [bind_count?_eq_some_iff.mpr h] at hcount
        exact (Option.some.inj hcount).symm
      · exact absurd hm (h m)
    · rintro rfl
      exact .held hm

theorem Holds.sets (h : s.Holds name n) : s.Sets name := by
  obtain ⟨v, hv, -⟩ := h
  exact ⟨v, hv⟩

/-- Both results are counts. -/
def Complete (s : Scope) : Prop := ∃ p f, s.Holds "passed" p ∧ s.Holds "failed" f

/-- The results are there or they are not, both. -/
def Whole (s : Scope) : Prop := s.Complete ∨ ¬ s.Sets "passed" ∧ ¬ s.Sets "failed"

theorem whole_iff : s.Whole ↔ (s.Sets "passed" ∨ s.Sets "failed" ↔ s.Complete) := by
  have hsets : s.Complete → s.Sets "passed" ∨ s.Sets "failed" := fun ⟨_, _, hp, _⟩ => .inl hp.sets
  rw [Whole, ← not_or]
  constructor
  · rintro (h | h)
    · exact ⟨fun _ => h, hsets⟩
    · exact ⟨fun hs => absurd hs h, hsets⟩
  · intro h
    by_cases hs : s.Sets "passed" ∨ s.Sets "failed"
    · exact .inl (h.mp hs)
    · exact .inr hs

end Scope

/-- The counts of a run that left this scope. -/
structure CountsOf (s : Scope) (c : Counts) : Prop where
  passed : s.Counted "passed" c.passed
  failed : s.Counted "failed" c.failed
  skipped : s.Counted "skipped" c.skipped

theorem countsOf_iff {s : Scope} {c : Counts} :
    CountsOf s c ↔ c = ⟨s.count "passed", s.count "failed", s.count "skipped"⟩ := by
  constructor
  · rintro ⟨hpassed, hfailed, hskipped⟩
    rw [Scope.counted_iff.mp hpassed, Scope.counted_iff.mp hfailed, Scope.counted_iff.mp hskipped]
  · rintro rfl
    exact ⟨Scope.counted_iff.mpr rfl, Scope.counted_iff.mpr rfl, Scope.counted_iff.mpr rfl⟩

namespace Run

variable {β : Type} {backend : Backend β} {r r' r'' : Run β} {files : FileTree}

theorem isResult_iff {s : Scope} : isResult s ↔ s.Sets "passed" ∨ s.Sets "failed" := by
  simp only [isResult, Bool.or_eq_true, Option.isSome_iff_exists, Scope.Sets]

/-! ### One call -/

/-- The ways a call can go. -/
inductive Ends (backend : Backend β) (r : Run β) : Except Fault Unit → Run β → Prop where
  | missing (hfile : ¬ r.files.isFile r.file) :
      Ends backend r (.error (ScriptError.missing r.file).fault) r
  | failed {f : Fault} {b : β} (hfile : r.files.isFile r.file)
      (hb : backend r.file r.backend = (.error f, b)) :
      Ends backend r (.error f) { r with backend := b }
  | noResult {s : Scope} {b : β} (hfile : r.files.isFile r.file)
      (hb : backend r.file r.backend = (.ok s, b)) (hs : ¬ (s.Sets "passed" ∨ s.Sets "failed")) :
      Ends backend r (.error ScriptError.noResult.fault) { r with backend := b }
  | result {s : Scope} {b : β} (hfile : r.files.isFile r.file)
      (hb : backend r.file r.backend = (.ok s, b)) (hs : s.Sets "passed" ∨ s.Sets "failed") :
      Ends backend r (.ok ()) { r with backend := b, scope := some s }

theorem ends_runAll (backend : Backend β) (r : Run β) :
    Ends backend r (runAll backend r).1 (runAll backend r).2 := by
  unfold runAll
  by_cases hfile : r.files.isFile r.file
  · rw [if_pos hfile]
    cases hb : backend r.file r.backend with
    | mk returned b =>
      cases returned with
      | error f => exact .failed hfile hb
      | ok s =>
        dsimp only
        by_cases hs : isResult s
        · rw [if_pos hs]
          exact .result hfile hb (isResult_iff.mp hs)
        · rw [if_neg hs]
          exact .noResult hfile hb fun h => hs (isResult_iff.mpr h)
  · rw [if_neg hfile]
    exact .missing hfile

def log (r : Run β) : Option Path := r.scope.bind Scope.logFile

/-- What writing the report comes to when the files are these. -/
def reported (r : Run β) (p : Path) (files : FileTree) : Except Fault Unit × FileTree :=
  ((writeReport p { r with files }).1, (writeReport p { r with files }).2.files)

/-- The same results, and the same reports from the same files. -/
structure Keeps (r r' : Run β) : Prop where
  counts : r'.counts = r.counts
  hasRun : r'.hasRun = r.hasRun
  log : r'.log = r.log
  reported : r'.reported = r.reported

/-- What a run tells is read from the scope alone. -/
theorem Keeps.of_scope (h : r'.scope = r.scope) : Keeps r r' := by
  refine ⟨?_, ?_, ?_, funext fun p => funext fun files => ?_⟩
  · rw [Run.counts, Run.counts, h]
  · rw [Run.hasRun, Run.hasRun, h]
  · rw [Run.log, Run.log, h]
  · unfold Run.reported writeReport
    rw [h]
    cases r.scope.bind Scope.logFile with
    | none => rfl
    | some log =>
      dsimp only
      cases files.copy log p with
      | error e => rfl
      | ok written => rfl

theorem Keeps.refl (r : Run β) : Keeps r r := .of_scope rfl

theorem Keeps.trans (h : Keeps r r') (h' : Keeps r' r'') : Keeps r r'' where
  counts := h'.counts.trans h.counts
  hasRun := h'.hasRun.trans h.hasRun
  log := h'.log.trans h.log
  reported := h'.reported.trans h.reported

theorem Ends.succeeds_iff {outcome : Except Fault Unit} (h : Ends backend r outcome r') :
    outcome = .ok () ↔ r.files.isFile r.file ∧
      ∃ s, (backend r.file r.backend).1 = .ok s ∧ (s.Sets "passed" ∨ s.Sets "failed") := by
  cases h with
  | missing hfile => exact ⟨nofun, fun h => absurd h.1 hfile⟩
  | failed _ hb =>
    rw [hb]
    exact ⟨nofun, fun ⟨_, _, hs, _⟩ => nomatch hs⟩
  | noResult _ hb hs =>
    rw [hb]
    refine ⟨nofun, ?_⟩
    rintro ⟨-, _, ⟨⟩, h⟩
    exact absurd h hs
  | result hfile hb hs =>
    rw [hb]
    exact ⟨fun _ => ⟨hfile, _, rfl, hs⟩, fun _ => rfl⟩

theorem Ends.scope_eq (h : Ends backend r (.ok ()) r') {s : Scope}
    (hs : (backend r.file r.backend).1 = .ok s) : r'.scope = some s := by
  cases h with
  | result _ hb _ =>
    rw [hb] at hs
    cases hs
    rfl

theorem Ends.keeps {f : Fault} (h : Ends backend r (.error f) r') : Keeps r r' := by
  cases h with
  | missing => exact .refl r
  | failed => exact .of_scope rfl
  | noResult => exact .of_scope rfl

theorem Ends.file_eq {outcome : Except Fault Unit} (h : Ends backend r outcome r') :
    r'.file = r.file := by
  cases h with
  | missing | failed | noResult | result => rfl

/-- A call of a suite. -/
structure Call (β : Type) where
  before : Run β
  outcome : Except Fault Unit
  after : Run β

/-- A call with the files as they are by then. -/
def call (backend : Backend β) (r : Run β) (files : FileTree) : Call β :=
  ⟨{ r with files }, (runAll backend { r with files }).1, (runAll backend { r with files }).2⟩

def Call.Returns (backend : Backend β) (c : Call β) (s : Scope) : Prop :=
  (backend c.before.file c.before.backend).1 = .ok s

/-- What came of a call. -/
structure Settled (backend : Backend β) (c : Call β) : Prop where
  succeeds : c.outcome = .ok () ↔ c.before.files.isFile c.before.file ∧
    ∃ s, c.Returns backend s ∧ (s.Sets "passed" ∨ s.Sets "failed")
  /-- To have both counts is what decides of the scopes that are whole, and of no others. -/
  whole : c.before.files.isFile c.before.file → ∀ s, c.Returns backend s →
    ((c.outcome = .ok () ↔ s.Complete) ↔ s.Whole)
  results : c.outcome = .ok () → ∀ s, c.Returns backend s →
    CountsOf s c.after.counts ∧ c.after.hasRun ∧ c.after.log = s.logFile
  keeps : ∀ f, c.outcome = .error f → Keeps c.before c.after
  file : c.after.file = c.before.file

theorem ends_call (backend : Backend β) (r : Run β) (files : FileTree) :
    Ends backend (call backend r files).before (call backend r files).outcome
      (call backend r files).after :=
  ends_runAll backend { r with files }

theorem settled_call (backend : Backend β) (r : Run β) (files : FileTree) :
    Settled backend (call backend r files) := by
  have hends := ends_call backend r files
  generalize call backend r files = c at hends ⊢
  constructor
  case succeeds => exact hends.succeeds_iff
  case whole =>
    intro hfile s hs
    have honly : c.outcome = .ok () ↔ s.Sets "passed" ∨ s.Sets "failed" := by
      refine hends.succeeds_iff.trans ⟨?_, fun h => ⟨hfile, s, hs, h⟩⟩
      rintro ⟨-, t, ht, h⟩
      cases hs.symm.trans ht
      exact h
    rw [honly, Scope.whole_iff]
  case results =>
    intro hok s hs
    rw [hok] at hends
    have hscope := hends.scope_eq hs
    exact ⟨countsOf_iff.mpr (by rw [counts, hscope]), by rw [hasRun, hscope]; rfl,
      by rw [log, hscope]; rfl⟩
  case keeps =>
    intro f hf
    rw [hf] at hends
    exact hends.keeps
  case file => exact hends.file_eq

/-! ### Calls after each other -/

/-- Calls of a suite, with the files as they are at each of them. -/
def calls (backend : Backend β) (r : Run β) : List FileTree → List (Call β)
  | [] => []
  | files :: more => call backend r files :: calls backend (call backend r files).after more

/-- The suite behind its calls. -/
def behind (backend : Backend β) (r : Run β) : List FileTree → Run β
  | [] => r
  | files :: more => behind backend (call backend r files).after more

def Call.Fails (c : Call β) : Prop := ∃ f, c.outcome = .error f

theorem Settled.fails {c : Call β} (h : Settled backend c)
    (hfile : ¬ c.before.files.isFile c.before.file) : c.Fails := by
  cases houtcome : c.outcome with
  | error f => exact ⟨f, houtcome⟩
  | ok u => exact absurd (h.succeeds.mp houtcome).1 hfile

theorem settled_of_mem_calls {fs : List FileTree} {c : Call β} (h : c ∈ calls backend r fs) :
    Settled backend c := by
  induction fs generalizing r with
  | nil => exact absurd h List.not_mem_nil
  | cons files more ih =>
    rcases List.mem_cons.mp h with rfl | h
    · exact settled_call backend r files
    · exact ih h

theorem keeps_call_of_fails (h : (call backend r files).Fails) :
    Keeps r (call backend r files).after := by
  obtain ⟨f, hf⟩ := h
  have hfiles : Keeps r { r with files } := .of_scope rfl
  exact hfiles.trans ((settled_call backend r files).keeps f hf)

theorem keeps_behind {fs : List FileTree} (h : ∀ c ∈ calls backend r fs, c.Fails) :
    Keeps r (behind backend r fs) := by
  induction fs generalizing r with
  | nil => exact .refl r
  | cons files more ih =>
    obtain ⟨hfails, hmore⟩ := List.forall_mem_cons.mp h
    exact (keeps_call_of_fails hfails).trans (ih hmore)

theorem keeps_behind_last {fs : List FileTree} {front back : List (Call β)} {c : Call β}
    (h : calls backend r fs = front ++ c :: back) (hback : ∀ d ∈ back, d.Fails) :
    Keeps c.after (behind backend r fs) := by
  induction fs generalizing r front with
  | nil => exact absurd h.symm (List.append_ne_nil_of_right_ne_nil front (List.cons_ne_nil c back))
  | cons files more ih =>
    rw [calls] at h
    cases front with
    | nil =>
      obtain ⟨rfl, rfl⟩ := List.cons.inj h
      exact keeps_behind hback
    | cons d front =>
      obtain ⟨-, h⟩ := List.cons.inj h
      exact ih h

/-- A script that leaves one of its counts has a result, with 0 for the other. A suite has the
results of the last call that succeeded, and those it began with before one did. -/
theorem calls_keep_results (backend : Backend β) (r : Run β) (fs : List FileTree) :
    (∀ c ∈ calls backend r fs, Settled backend c) ∧
    ((∀ c ∈ calls backend r fs, c.Fails) → Keeps r (behind backend r fs)) ∧
    ∀ front c back, calls backend r fs = front ++ c :: back → (∀ d ∈ back, d.Fails) →
      Keeps c.after (behind backend r fs) :=
  ⟨fun _ => settled_of_mem_calls, keeps_behind, fun _ _ _ => keeps_behind_last⟩

/-- A directory with one script in it. -/
def oneScript : FileTree := ⟨[(["w", "s.py"], .file (.text ""))], ["w"]⟩

theorem isFile_oneScript : oneScript.isFile ⟨"s.py"⟩ = true := by
  have hfile : oneScript.file? ⟨"s.py"⟩ = some (["w", "s.py"], .text "") :=
    FileTree.file?_of_leads ["w"] ["s.py"] (by decide +kernel) (.file (by decide +kernel) rfl) rfl
  rw [FileTree.isFile, hfile]
  rfl

/-- Both counts are left at the first call; at the second the script is gone. -/
theorem calls_keep_results_of_first :
    let s : Scope := ⟨[("passed", .int 4), ("failed", .list [.text "x", .text "y"])]⟩
    let backend : Backend Unit := fun _ b => (.ok s, b)
    let r : Run Unit := ⟨⟨"s.py"⟩, (), ⟨[], []⟩, none⟩
    ∃ c d, calls backend r [oneScript, ⟨[], []⟩] = [c] ++ [d] ∧ Settled backend c ∧
      c.outcome = .ok () ∧ d.Fails ∧
        (behind backend r [oneScript, ⟨[], []⟩]).counts = ⟨4, 2, 0⟩ := by
  intro s backend r
  obtain ⟨hsettled, -, hlast⟩ := calls_keep_results backend r [oneScript, ⟨[], []⟩]
  let c := call backend r oneScript
  let d := call backend c.after ⟨[], []⟩
  have hc : Settled backend c := hsettled c List.mem_cons_self
  have hd : Settled backend d := hsettled d (List.mem_cons_of_mem c List.mem_cons_self)
  have hreturns : c.Returns backend s := rfl
  have hok : c.outcome = .ok () :=
    hc.succeeds.mpr ⟨isFile_oneScript, s, hreturns, .inl ⟨.int 4, rfl⟩⟩
  have hgone : ¬ d.before.files.isFile d.before.file := by
    show ¬ ((FileTree.file? ⟨[], []⟩ c.after.file).isSome = true)
    cases hfile : FileTree.file? ⟨[], []⟩ c.after.file with
    | none => exact Bool.false_ne_true
    | some x => exact absurd (FileTree.mem_entries_of_file? hfile) List.not_mem_nil
  have hfails : d.Fails := hd.fails hgone
  have hkeeps : Keeps c.after (behind backend r [oneScript, ⟨[], []⟩]) :=
    hlast [] c [d] rfl (List.forall_mem_singleton.mpr hfails)
  obtain ⟨hcounts, -, -⟩ := hc.results hok s hreturns
  exact ⟨c, d, rfl, hc, hok, hfails, hkeeps.counts.trans (countsOf_iff.mp hcounts)⟩

/-- A script that leaves one count, and one whose results are a text and a negative number: both
runs succeed, and neither has a failure. -/
theorem half_a_result_succeeds :
    let half : Scope := ⟨[("passed", .int 3)]⟩
    let unread : Scope := ⟨[("passed", .text "3"), ("failed", .int (-1))]⟩
    let run (s : Scope) : Except Fault Unit × Run Unit :=
      runAll (fun _ b => (.ok s, b)) ⟨⟨"s.py"⟩, (), oneScript, none⟩
    ((run half).1 = .ok () ∧ (run half).2.counts = ⟨3, 0, 0⟩ ∧ ∀ n, ¬ half.Holds "failed" n) ∧
      (run unread).1 = .ok () ∧ (run unread).2.counts = ⟨0, 0, 0⟩ ∧
        ∀ n, ¬ unread.Holds "passed" n ∧ ¬ unread.Holds "failed" n := by
  intro half unread run
  have hrun : ∀ s, isResult s → run s = (.ok (), ⟨⟨"s.py"⟩, (), oneScript, some s⟩) := by
    intro s hs
    show runAll _ _ = _
    unfold runAll
    rw [if_pos isFile_oneScript]
    dsimp only
    rw [if_pos hs]
  rw [hrun half rfl, hrun unread rfl]
  refine ⟨⟨rfl, rfl, ?_⟩, rfl, rfl, fun n => ⟨?_, ?_⟩⟩
  · rintro n ⟨v, hv, -⟩
    cases hv
  · rintro ⟨v, hv, hn⟩
    cases hv
    cases hn
  · rintro ⟨v, hv, hn⟩
    cases hv
    cases hn

end Run

end StepRunner.Script
