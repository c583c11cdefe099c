import Mathlib.Data.List.Infix
import StepRunner.FileTree.Basic
import StepRunner.Proofs.Text.Split

/-!
# Where paths lead

`Leads` says how the segments of a path lead from one place to another: this is what `walk` finds
for a path to something that exists (`walk_of_leads`, `leads_of_walk`). The path from the root tells
files apart (`TellsApart`), if the tree is not so deep that such paths cannot be looked up
(`tellsApart`).
-/

namespace StepRunner.FileTree

variable {t : FileTree}

/-! ### Names -/

/-- A name that something in a directory can have. -/
structure IsName (s : String) : Prop where
  not_idle : ¬ (s = "" ∨ s = ".")
  not_up : s ≠ ".."
  short : ¬ nameLimit < s.utf8ByteSize
  no_slash : '/' ∉ s.toList

instance (s : String) : Decidable (IsName s) :=
  decidable_of_iff
    (¬ (s = "" ∨ s = ".") ∧ s ≠ ".." ∧ ¬ nameLimit < s.utf8ByteSize ∧ '/' ∉ s.toList)
    ⟨fun ⟨hidle, hup, hlen, hslash⟩ => ⟨hidle, hup, hlen, hslash⟩,
      fun h => ⟨h.not_idle, h.not_up, h.short, h.no_slash⟩⟩

theorem not_mem_of_mem_segments {text s : String} (h : s ∈ segments text) : '/' ∉ s.toList := by
  obtain ⟨piece, hpiece, rfl⟩ := List.mem_map.mp h
  rw [String.toList_ofList]
  exact Text.not_mem_of_mem_splitAt hpiece

theorem IsName.component {s : String} (h : IsName s) :
    Path.isIdle s.toList = false ∧ Path.segmentComponent s.toList = .name s := by
  have hidle := h.not_idle
  rw [not_or, ← String.toList_inj, ← String.toList_inj] at hidle
  have hup : s.toList ≠ ['.', '.'] := fun he => h.not_up (String.toList_inj.mp he)
  rw [Path.isIdle, Bool.or_eq_false_iff, decide_eq_false_iff_not, decide_eq_false_iff_not,
    Path.segmentComponent, if_neg hup, String.ofList_toList]
  exact ⟨hidle, rfl⟩

section

variable {place place' : Place}

/-- The path of a place names it from the root down. -/
theorem components_pathOf (h : ∀ s ∈ place, IsName s) :
    (pathOf place).components = .root :: place.map .name := by
  have hchars : (pathOf place).chars = '/' :: ['/'].intercalate (place.map String.toList) := by
    rw [pathOf, Path.chars, String.toList_append, String.toList_intercalate]
    rfl
  have hsplit : (pathOf place).split = (['/'], ['/'].intercalate (place.map String.toList)) := by
    rw [Path.split, hchars]
    rfl
  rw [Path.components, hsplit]
  dsimp only
  cases place with
  | nil => rfl
  | cons s r =>
    have hpieces : ∀ p ∈ (s :: r).map String.toList, '/' ∉ p ∧ Path.isIdle p = false := by
      simp only [List.forall_mem_map]
      exact fun s hs => ⟨(h s hs).no_slash, (h s hs).component.1⟩
    rw [Text.splitAt_intercalate (by simp) fun p hp => (hpieces p hp).1,
      List.filter_eq_self.mpr fun p hp => by rw [(hpieces p hp).2]; rfl, List.map_map]
    exact congrArg _ (List.map_congr_left fun s hs => (h s hs).component.2)

theorem pathOf_alike_iff (h : ∀ s ∈ place, IsName s) (h' : ∀ s ∈ place', IsName s) :
    (pathOf place).alike (pathOf place') = true ↔ place = place' := by
  have hinj : Function.Injective Path.Component.name := fun _ _ => Path.Component.name.inj
  rw [Path.alike, beq_iff_eq, components_pathOf h, components_pathOf h', List.cons_inj_right,
    List.map_inj_right fun _ _ => (hinj ·)]

end

/-! ### Following a path -/

/-- Segments lead from one place to another, along at most so many links. -/
inductive Leads (t : FileTree) : Nat → Place → List String → Place → Prop
  | here {links place} : Leads t links place [] place
  | idle {links place s r x} : s = "" ∨ s = "." → Leads t links place r x →
      Leads t links place (s :: r) x
  | up {links place r x} : Leads t links place.dropLast r x → Leads t links place (".." :: r) x
  | down {links place s r x} : IsName s → t.lookup (place ++ [s]) = some .directory →
      Leads t links (place ++ [s]) r x → Leads t links place (s :: r) x
  | file {links place s c} : IsName s → t.lookup (place ++ [s]) = some (.file c) →
      Leads t links place [s] (place ++ [s])
  | device {links place s d} : IsName s → t.lookup (place ++ [s]) = some (.device d) →
      Leads t links place [s] (place ++ [s])
  | along {links place s target r x} : IsName s →
      t.lookup (place ++ [s]) = some (.link target) → target ≠ "" →
      Leads t links (startOf target place) (segments target ++ r) x →
      Leads t (links + 1) place (s :: r) x

section

variable {purpose : Purpose} {links : Nat} {place x : Place} {todo : List String}

theorem leads_of_walk (hp : purpose ≠ .entry) (htodo : ∀ s ∈ todo, '/' ∉ s.toList)
    (h : t.walk purpose links place todo = .ok (.taken x)) : Leads t links place todo x := by
  have htail : ∀ {s : String} {r : List String}, (∀ s' ∈ s :: r, '/' ∉ s'.toList) →
      ∀ s' ∈ r, '/' ∉ s'.toList := fun hslash s' hs' => hslash s' (List.mem_cons_of_mem _ hs')
  fun_induction t.walk purpose links place todo with
  | case1 => cases h; exact .here
  | case2 links place s r hidle ih => exact .idle hidle (ih (htail htodo) h)
  | case3 links place r _ ih => exact .up (ih (htail htodo) h)
  | case9 links place s r hidle hup _ _ hlen _ hdir ih =>
    exact .down ⟨hidle, hup, hlen, htodo _ List.mem_cons_self⟩ hdir (ih (htail htodo) h)
  | case10 links place s r hidle hup _ _ hlen _ c hfile hend =>
    cases h
    obtain rfl : r = [] := hend.resolve_right fun he => hp he.1
    exact .file ⟨hidle, hup, hlen, htodo _ List.mem_cons_self⟩ hfile
  | case12 links place s r hidle hup _ _ hlen _ d hdevice hend =>
    cases h
    obtain rfl : r = [] := hend.resolve_right fun he => hp he.1
    exact .device ⟨hidle, hup, hlen, htodo _ List.mem_cons_self⟩ hdevice
  | case14 links place s r _ _ _ _ _ _ target _ he => exact absurd he.1 hp
  | case17 place s r hidle hup _ _ hlen _ target hlink _ n hne ih =>
    refine .along ⟨hidle, hup, hlen, htodo _ List.mem_cons_self⟩ hlink hne (ih (fun s' hs' => ?_) h)
    rcases List.mem_append.mp hs' with hs' | hs'
    · exact not_mem_of_mem_segments hs'
    · exact htail htodo s' hs'
  | case4 | case5 | case6 | case7 | case8 | case11 | case13 | case15 | case16 => cases h

theorem walk_of_leads (hp : purpose = .existing ∨ purpose = .fullPath ∧
      ∀ place node, t.lookup place = some node → fits (pathOf place))
    (h : Leads t links place todo x) : t.walk purpose links place todo = .ok (.taken x) := by
  have hfits : ∀ {place node}, t.lookup place = some node →
      ¬ (purpose = .fullPath ∧ ¬ fits (pathOf place)) := by
    rintro place node hlookup ⟨rfl, hnot⟩
    rcases hp with hp | ⟨-, hshort⟩
    · cases hp
    · exact hnot (hshort place node hlookup)
  have hfile : purpose ≠ .file := by rcases hp with rfl | ⟨rfl, -⟩ <;> decide
  have hentry : purpose ≠ .entry := by rcases hp with rfl | ⟨rfl, -⟩ <;> decide
  induction h with
  | here => rw [walk]
  | idle hidle _ ih => rw [walk, if_pos hidle, ih]
  | up _ ih => rw [walk, if_neg (by decide), if_pos rfl, ih]
  | down hs hdir _ ih =>
    rw [walk, if_neg hs.not_idle, if_neg hs.not_up]
    simp only [hfile, false_and, if_false, if_neg hs.short, if_neg (hfits hdir), hdir, ih]
  | file hs hc =>
    rw [walk, if_neg hs.not_idle, if_neg hs.not_up]
    simp only [hfile, false_and, if_false, if_neg hs.short, if_neg (hfits hc), hc, true_or, if_true]
  | device hs hd =>
    rw [walk, if_neg hs.not_idle, if_neg hs.not_up]
    simp only [hfile, false_and, if_false, if_neg hs.short, if_neg (hfits hd), hd, true_or, if_true]
  | along hs hlink hne _ ih =>
    rw [walk, if_neg hs.not_idle, if_neg hs.not_up]
    simp only [hfile, hentry, false_and, if_false, if_neg hs.short, if_neg (hfits hlink), hlink,
      if_neg hne, ih]

theorem isName_of_mem_startOf {text : String} (hplace : ∀ s ∈ place, IsName s) :
    ∀ s ∈ startOf text place, IsName s := by
  rw [startOf]
  split
  · exact fun s hs => absurd hs List.not_mem_nil
  · exact hplace

theorem Leads.isName (h : Leads t links place todo x) (hplace : ∀ s ∈ place, IsName s) :
    ∀ s ∈ x, IsName s := by
  have hsnoc : ∀ {place : Place} {s}, (∀ s' ∈ place, IsName s') → IsName s →
      ∀ s' ∈ place ++ [s], IsName s' := fun hplace hs s' hs' => by
    rcases List.mem_append.mp hs' with hs' | hs'
    · exact hplace s' hs'
    · exact List.mem_singleton.mp hs' ▸ hs
  induction h with
  | here => exact hplace
  | idle _ _ ih => exact ih hplace
  | up _ ih => exact ih fun s hs => hplace s (List.mem_of_mem_dropLast hs)
  | down hs _ _ ih => exact ih (hsnoc hplace hs)
  | file hs | device hs => exact hsnoc hplace hs
  | along _ _ _ _ ih => exact ih (isName_of_mem_startOf hplace)

end

/-! ### Paths from the root -/

section

variable {p q : Path} {x : Place}

/-- A path that can be looked up at all. -/
def CanBeFollowed (p : Path) : Prop := p.text ≠ "" ∧ '\x00' ∉ p.text.toList

instance (p : Path) : Decidable (CanBeFollowed p) := inferInstanceAs (Decidable (_ ∧ _))

theorem resolve_eq_ok_iff : t.resolve p = .ok x ↔ CanBeFollowed p ∧ fits p ∧
    Leads t linkLimit (startOf p.text t.cwd) (segments p.text) x := by
  have hwalk : t.walk .existing linkLimit (startOf p.text t.cwd) (segments p.text) =
      .ok (.taken x) ↔ Leads t linkLimit (startOf p.text t.cwd) (segments p.text) x :=
    ⟨leads_of_walk (by decide) fun s => not_mem_of_mem_segments, walk_of_leads (.inl rfl)⟩
  rw [← hwalk, resolve, locate, CanBeFollowed, String.contains_char_eq]
  by_cases hempty : p.text = ""
  · simp [hempty, bind, Except.bind]
  by_cases hnul : '\x00' ∈ p.text.toList
  · simp [hempty, hnul, bind, Except.bind]
  by_cases hfits : fits p = true
  · simp only [hempty, hnul, hfits, ne_eq, not_false_eq_true, and_self, true_and, if_false,
      decide_false, Bool.not_true, Bool.false_eq_true]
    rcases t.walk .existing linkLimit (startOf p.text t.cwd) (segments p.text) with _ | _ | _ <;>
      simp [bind, Except.bind, pure, Except.pure, throw, throwThe, MonadExceptOf.throw]
  · simp [hempty, hnul, hfits, bind, Except.bind]

theorem canonical_eq_ok_iff : t.canonical p = .ok q ↔ CanBeFollowed p ∧ ∃ x,
    t.walk .fullPath linkLimit (startOf p.text t.cwd) (segments p.text) = .ok (.taken x) ∧
      fits (pathOf x) ∧ q = pathOf x := by
  rw [canonical, CanBeFollowed, String.contains_char_eq]
  by_cases hempty : p.text = ""
  · simp [hempty]
  by_cases hnul : '\x00' ∈ p.text.toList
  · simp [hempty, hnul]
  simp only [hempty, hnul, ne_eq, not_false_eq_true, and_self, true_and, if_false, decide_false,
    Bool.false_eq_true]
  rcases t.walk .fullPath linkLimit (startOf p.text t.cwd) (segments p.text) with _ | y | _
  · simp
  · simp only [Except.ok.injEq, Target.taken.injEq, exists_eq_left']
    split
    · next hy => simp only [hy, true_and, Except.ok.injEq, eq_comm]
    · next hy => simp only [hy, Bool.false_eq_true, false_and, reduceCtorEq]
  · simp

/-- The path of a file from the root is that of the place it is found at. -/
theorem eq_pathOf_of_canonical (hq : t.canonical p = .ok q) (hx : t.resolve p = .ok x) :
    q = pathOf x := by
  obtain ⟨-, y, hy, -, rfl⟩ := canonical_eq_ok_iff.mp hq
  obtain ⟨-, -, hx⟩ := resolve_eq_ok_iff.mp hx
  have hy := walk_of_leads (.inl rfl)
    (leads_of_walk (by decide) (fun s => not_mem_of_mem_segments) hy)
  rw [walk_of_leads (.inl rfl) hx] at hy
  cases hy
  rfl

theorem file?_eq_some_iff {c : Content} : t.file? p = some (x, c) ↔
    t.resolve p = .ok x ∧ t.lookup x = some (.file c) := by
  rw [file?]
  constructor
  · intro h
    split at h
    · cases h
    · split at h
      · next hresolve _ _ hlookup => cases h; exact ⟨hresolve, hlookup⟩
      · cases h
  · rintro ⟨hresolve, hlookup⟩
    simp only [hresolve, hlookup]

theorem file?_of_leads {c : Content} (start : Place) (names : List String)
    (hp : CanBeFollowed p ∧ fits p ∧ startOf p.text t.cwd = start ∧ segments p.text = names)
    (hx : Leads t linkLimit start names x) (hc : t.lookup x = some (.file c)) :
    t.file? p = some (x, c) := by
  obtain ⟨hp, hfits, rfl, rfl⟩ := hp
  exact file?_eq_some_iff.mpr ⟨resolve_eq_ok_iff.mpr ⟨hp, hfits, hx⟩, hc⟩

theorem locate_of_segments (purpose : Purpose) (start : Place) (names : List String)
    (hp : CanBeFollowed p ∧ fits p ∧ startOf p.text t.cwd = start ∧ segments p.text = names) :
    t.locate purpose p = t.walk purpose linkLimit start names := by
  obtain ⟨⟨hempty, hnul⟩, hfits, rfl, rfl⟩ := hp
  rw [locate, String.contains_char_eq, if_neg hempty, decide_eq_false hnul,
    if_neg Bool.false_ne_true, hfits, if_neg (by decide)]

theorem mem_of_lookup {node : Node} (h : t.lookup x = some node) :
    x ∈ t.cwd.inits ++ t.entries.map Prod.fst := by
  rw [List.mem_append, List.mem_inits]
  unfold lookup at h
  split at h
  · next hprefix => exact .inl (List.isPrefixOf_iff_prefix.mp hprefix)
  · obtain ⟨_, _, hentries, -⟩ := List.lookup_eq_some_iff.mp h
    exact .inr (List.mem_map.mpr ⟨(x, node), by simp [hentries], rfl⟩)

/-- If the paths of all places can be looked up, each file has a path from the root. -/
theorem canonical_of_file? {c : Content}
    (hshort : ∀ place ∈ t.cwd.inits ++ t.entries.map Prod.fst, fits (pathOf place))
    (h : t.file? p = some (x, c)) : t.canonical p = .ok (pathOf x) := by
  obtain ⟨hx, hc⟩ := file?_eq_some_iff.mp h
  obtain ⟨hp, -, hx⟩ := resolve_eq_ok_iff.mp hx
  refine canonical_eq_ok_iff.mpr ⟨hp, x, walk_of_leads (.inr ⟨rfl, ?_⟩) hx,
    hshort x (mem_of_lookup hc), rfl⟩
  exact fun place node h => hshort place (mem_of_lookup h)

end

/-! ### Telling files apart -/

/-- Every file has a path from the root, and it is that of another file only if the two are one. -/
structure TellsApart (t : FileTree) : Prop where
  total : ∀ p, t.isFile p = true → ∃ q, t.canonical p = .ok q
  exact : ∀ p p' q q', t.isFile p = true → t.isFile p' = true → t.canonical p = .ok q →
    t.canonical p' = .ok q' → (q.alike q' = true ↔ t.file? p = t.file? p')

/-- A tree tells its files apart if its paths from the root can be looked up. -/
theorem tellsApart (hcwd : ∀ s ∈ t.cwd, IsName s)
    (hshort : ∀ place ∈ t.cwd.inits ++ t.entries.map Prod.fst, fits (pathOf place)) :
    t.TellsApart := by
  refine ⟨fun p hp => ?_, fun p p' q q' hp hp' hq hq' => ?_⟩
  · obtain ⟨⟨x, c⟩, hfile⟩ := Option.isSome_iff_exists.mp hp
    exact ⟨_, canonical_of_file? hshort hfile⟩
  · obtain ⟨⟨x, c⟩, hfile⟩ := Option.isSome_iff_exists.mp hp
    obtain ⟨⟨x', c'⟩, hfile'⟩ := Option.isSome_iff_exists.mp hp'
    obtain ⟨hx, hc⟩ := file?_eq_some_iff.mp hfile
    obtain ⟨hx', hc'⟩ := file?_eq_some_iff.mp hfile'
    have hname : ∀ {p x}, t.resolve p = .ok x → ∀ s ∈ x, IsName s := fun hx =>
      (resolve_eq_ok_iff.mp hx).2.2.isName (isName_of_mem_startOf hcwd)
    rw [eq_pathOf_of_canonical hq hx, eq_pathOf_of_canonical hq' hx',
      pathOf_alike_iff (hname hx) (hname hx'), hfile, hfile']
    constructor
    · rintro rfl
      rw [hc] at hc'
      cases hc'
      rfl
    · intro h
      cases h
      rfl

end StepRunner.FileTree
