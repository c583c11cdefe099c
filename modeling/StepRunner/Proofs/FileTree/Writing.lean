import StepRunner.FileTree.Edit
import StepRunner.Proofs.FileTree.Canonical

/-!
# What is written can be read

A path that a file can be written to leads to that file afterwards, so what was written is read
(`readText_of_writeText`). A device keeps nothing. Anywhere else no text can be written at all
(`write_cases`).
-/

namespace StepRunner.FileTree

variable {t t' : FileTree} {p : Path}

/-- The path leads to a device. -/
def isDevice (t : FileTree) (p : Path) : Bool :=
  match t.resolve p with
  | .error _ => false
  | .ok place =>
    match t.lookup place with
    | some (.device _) => true
    | _ => false

/-- Any text can be written there. -/
def Writable (t : FileTree) (p : Path) : Prop := ∀ s, ∃ t', t.writeText p s = .ok t'

@[simp] theorem cwd_put (place : Place) (n : Node) : (t.put place n).cwd = t.cwd := by
  unfold put
  split <;> rfl

/-! ### Following a path to what was written -/

/-- A file is written to a free place or to one where a file stands. -/
def TakesFile (t : FileTree) (x : Place) : Prop :=
  t.lookup x = none ∨ ∃ c, t.lookup x = some (.file c)

section

variable {links : Nat} {place x : Place} {todo : List String} {purpose : Purpose} {c : Content}

theorem lookup_put_of_takesFile (h : t.TakesFile x) :
    (t.put x (.file c)).lookup x = some (.file c) := by
  have hcwd : ¬ x.isPrefixOf t.cwd = true := fun hprefix => by
    rw [TakesFile, lookup, if_pos hprefix] at h
    obtain h | ⟨_, h⟩ := h <;> cases h
  rw [lookup_put, if_neg hcwd, if_pos rfl]

/-- Directories, links and devices stand where they stood. -/
theorem lookup_put_of_node {q : Place} {n : Node} (h : t.TakesFile x) (hn : t.lookup q = some n)
    (hfile : ∀ c, n ≠ .file c) : (t.put x (.file c)).lookup q = some n := by
  have hq : q ≠ x := by
    rintro rfl
    rw [TakesFile, hn] at h
    obtain h | ⟨c, h⟩ := h
    · cases h
    · exact hfile c (Option.some.inj h)
  rw [lookup_put, if_neg hq, ← hn, lookup]
  split <;> rfl

theorem leads_put_of_walk {target : Target} (hp : purpose = .file)
    (htodo : ∀ s ∈ todo, '/' ∉ s.toList) (hx : t.TakesFile x)
    (h : t.walk purpose links place todo = .ok target)
    (htarget : target = .taken x ∨ target = .free x) :
    Leads (t.put x (.file c)) links place todo x := by
  have htail : ∀ {s : String} {r : List String}, (∀ s' ∈ s :: r, '/' ∉ s'.toList) →
      ∀ s' ∈ r, '/' ∉ s'.toList := fun hslash s' hs' => hslash s' (List.mem_cons_of_mem _ hs')
  fun_induction t.walk purpose links place todo with
  | case1 =>
    cases h
    obtain h | h := htarget <;> cases h
    exact .here
  | case2 links place s r hidle ih => exact .idle hidle (ih (htail htodo) h)
  | case3 links place r _ ih => exact .up (ih (htail htodo) h)
  | case7 links place s r hidle hup last hslash hlen _ _ hlast =>
    cases h
    obtain h | h := htarget <;> cases h
    -- A name that ends in `/` is refused.
    obtain rfl : r = [] := not_not.mp fun hr => hslash ⟨hp, hlast, hr⟩
    exact .file ⟨hidle, hup, hlen, htodo _ List.mem_cons_self⟩ (lookup_put_of_takesFile hx)
  | case9 links place s r hidle hup _ _ hlen _ hdir ih =>
    exact .down ⟨hidle, hup, hlen, htodo _ List.mem_cons_self⟩
      (lookup_put_of_node hx hdir (by simp)) (ih (htail htodo) h)
  | case10 links place s r hidle hup _ _ hlen _ _ _ hend =>
    cases h
    obtain h | h := htarget <;> cases h
    obtain rfl : r = [] := hend.resolve_right fun he => by rw [hp] at he; cases he.1
    exact .file ⟨hidle, hup, hlen, htodo _ List.mem_cons_self⟩ (lookup_put_of_takesFile hx)
  | case12 links place s r _ _ _ _ _ _ d hdevice =>
    cases h
    obtain h | h := htarget <;> cases h
    rw [TakesFile, hdevice] at hx
    obtain hx | ⟨_, hx⟩ := hx <;> cases hx
  | case14 links place s r _ _ _ _ _ _ _ _ he => rw [hp] at he; cases he.1
  | case17 place s r hidle hup _ _ hlen _ target hlink _ n hne ih =>
    have hstart : ∀ s' ∈ segments target ++ r, '/' ∉ s'.toList := fun s' hs' => by
      rcases List.mem_append.mp hs' with hs' | hs'
      · exact not_mem_of_mem_segments hs'
      · exact htail htodo s' hs'
    exact .along ⟨hidle, hup, hlen, htodo _ List.mem_cons_self⟩
      (lookup_put_of_node hx hlink (by simp)) hne (ih hstart h)
  | case4 | case5 | case6 | case8 | case11 | case13 | case15 | case16 => cases h

theorem lookup_of_walk_free (h : t.walk purpose links place todo = .ok (.free x)) :
    t.lookup x = none := by
  fun_induction t.walk purpose links place todo with
  | case2 _ _ _ _ _ ih | case3 _ _ _ _ ih | case9 _ _ _ _ _ _ _ _ _ _ _ ih
  | case17 _ _ _ _ _ _ _ _ _ _ _ _ _ _ ih => exact ih h
  | case7 _ _ _ _ _ _ _ _ _ _ hnone =>
    cases h
    exact hnone
  | case1 | case4 | case5 | case6 | case8 | case10 | case11 | case12 | case13 | case14 | case15
  | case16 => cases h

/-- Whatever a path that leads to a free place is followed for, nothing exists there. -/
theorem walk_existing_of_free
    (h : t.walk purpose links place todo = .ok (.free x)) :
    t.walk .existing links place todo = .ok (.free x) := by
  fun_induction t.walk purpose links place todo with
  | case2 links place s r hidle ih =>
    rw [walk, if_pos hidle]
    exact ih h
  | case3 links place r hidle ih =>
    rw [walk, if_neg hidle, if_pos rfl]
    exact ih h
  | case7 links place s r hidle hup last _ hlen _ hnone hlast =>
    rw [walk, if_neg hidle, if_neg hup, if_neg (by simp), if_neg hlen, if_neg (by simp), hnone]
    dsimp only
    rw [if_pos hlast]
    exact h
  | case9 links place s r hidle hup _ _ hlen _ hdir ih =>
    rw [walk, if_neg hidle, if_neg hup, if_neg (by simp), if_neg hlen, if_neg (by simp), hdir]
    exact ih h
  | case17 place s r hidle hup _ _ hlen _ target hlink _ n hne ih =>
    rw [walk, if_neg hidle, if_neg hup, if_neg (by simp), if_neg hlen, if_neg (by simp), hlink]
    dsimp only
    rw [if_neg (by simp), if_neg hne]
    exact ih h
  | case1 | case4 | case5 | case6 | case8 | case10 | case11 | case12 | case13 | case14 | case15
  | case16 => cases h

end

/-! ### Writing and reading -/

theorem locate_eq_ok_iff {purpose : Purpose} {target : Target} :
    t.locate purpose p = .ok target ↔ CanBeFollowed p ∧ fits p ∧
      t.walk purpose linkLimit (startOf p.text t.cwd) (segments p.text) = .ok target := by
  rw [locate, CanBeFollowed, String.contains_char_eq]
  by_cases hempty : p.text = ""
  · simp [hempty]
  by_cases hnul : '\x00' ∈ p.text.toList
  · simp [hempty, hnul]
  by_cases hfits : fits p = true
  · simp [hempty, hnul, hfits]
  · simp [hempty, hnul, hfits]

/-- What is put where a path leads for writing is what the path leads to. -/
theorem read_put_of_locate {x : Place} {target : Target} (hx : t.TakesFile x)
    (h : t.locate .file p = .ok target) (htarget : target = .taken x ∨ target = .free x)
    (c : Content) : (t.put x (.file c)).read p = .ok c := by
  obtain ⟨hp, hfits, hwalk⟩ := locate_eq_ok_iff.mp h
  have hleads : Leads (t.put x (.file c)) linkLimit (startOf p.text t.cwd) (segments p.text) x :=
    leads_put_of_walk rfl (fun s => not_mem_of_mem_segments) hx hwalk htarget
  have hresolve : (t.put x (.file c)).resolve p = .ok x :=
    resolve_eq_ok_iff.mpr ⟨hp, hfits, by rwa [cwd_put]⟩
  rw [read, hresolve]
  dsimp only [bind, Except.bind]
  rw [lookup_put_of_takesFile hx]
  rfl

theorem write_of_taken {x : Place} (h : t.locate .file p = .ok (.taken x)) (c : Content) :
    t.write p c = match t.lookup x with
      | some (.file _) => .ok (t.put x (.file c))
      | some (.device d) => (d.write c).map fun _ => t
      | _ => .error .isDirectory := by
  rw [write, h]
  dsimp only [bind, Except.bind]
  rcases t.lookup x with _ | _ | _ | _ | d <;> rfl

/-- Where a path leads to, as far as writing is concerned: to a file, there yet or not, to a device
or nowhere. -/
theorem write_cases (t : FileTree) (p : Path) :
    (∃ x, ∀ c, t.write p c = .ok (t.put x (.file c)) ∧ (t.put x (.file c)).read p = .ok c) ∨
      (t.isDevice p = true ∧ ∃ d : Device, ∀ c, t.write p c = (d.write c).map fun _ => t) ∨
      ∃ e, ∀ c, t.write p c = .error e := by
  cases hlocate : t.locate .file p with
  | error e => exact .inr (.inr ⟨e, fun c => by rw [write, hlocate]; rfl⟩)
  | ok target =>
    cases target with
    | free x =>
      have hx : t.TakesFile x := .inl (lookup_of_walk_free (locate_eq_ok_iff.mp hlocate).2.2)
      exact .inl ⟨x, fun c => ⟨by rw [write, hlocate]; rfl,
        read_put_of_locate hx hlocate (.inr rfl) c⟩⟩
    | taken x =>
      cases hnode : t.lookup x with
      | none => exact .inr (.inr ⟨_, fun c => by rw [write_of_taken hlocate, hnode]⟩)
      | some node =>
        cases node with
        | directory | link => exact .inr (.inr ⟨_, fun c => by rw [write_of_taken hlocate, hnode]⟩)
        | file c =>
          exact .inl ⟨x, fun c' => ⟨by rw [write_of_taken hlocate, hnode],
            read_put_of_locate (.inr ⟨c, hnode⟩) hlocate (.inl rfl) c'⟩⟩
        | device d =>
          obtain ⟨hp, hfits, hwalk⟩ := locate_eq_ok_iff.mp hlocate
          have hresolve : t.resolve p = .ok x := resolve_eq_ok_iff.mpr ⟨hp, hfits,
            leads_of_walk (by decide) (fun s => not_mem_of_mem_segments) hwalk⟩
          refine .inr (.inl ⟨?_, d, fun c => by rw [write_of_taken hlocate, hnode]⟩)
          rw [isDevice, hresolve]
          simp only [hnode]

theorem writable_of_free {x : Place} (h : t.locate .file p = .ok (.free x)) : t.Writable p :=
  fun s => ⟨t.put x (.file (.text s)), by rw [writeText, write, h]; rfl⟩

theorem isDevice_of_free {x : Place} (h : t.locate .file p = .ok (.free x)) :
    t.isDevice p = false := by
  obtain ⟨hp, hfits, hwalk⟩ := locate_eq_ok_iff.mp h
  have hlocate : t.locate .existing p = .ok (.free x) :=
    locate_eq_ok_iff.mpr ⟨hp, hfits, walk_existing_of_free hwalk⟩
  have hresolve : t.resolve p = .error .notFound := by
    rw [resolve, hlocate]
    rfl
  rw [isDevice, hresolve]

/-- What can be written at all can be written whatever it is, unless it is nothing. -/
theorem writable_of_writeText {s : String} (hs : s ≠ "") (h : t.writeText p s = .ok t') :
    t.Writable p := by
  intro s'
  rw [writeText] at h ⊢
  rcases write_cases t p with ⟨x, hwrite⟩ | ⟨-, d, hwrite⟩ | ⟨e, hwrite⟩
  · exact ⟨_, (hwrite _).1⟩
  · rw [hwrite] at h ⊢
    cases d with
    | null | endless => exact ⟨t, rfl⟩
    | full =>
      have hfull : (Content.text s).isEmpty = false := by simpa [Content.isEmpty] using hs
      simp only [Device.write, hfull] at h
      cases h
    | terminal => cases h
  · rw [hwrite] at h
    cases h

/-- A text written anywhere but to a device is what is read then. -/
theorem readText_of_writeText {s : String} (hdevice : t.isDevice p = false)
    (h : t.writeText p s = .ok t') : t'.readText p = .ok s := by
  rw [writeText] at h
  rcases write_cases t p with ⟨x, hwrite⟩ | ⟨htrue, -⟩ | ⟨e, hwrite⟩
  · obtain ⟨hput, hread⟩ := hwrite (.text s)
    obtain rfl := Except.ok.inj (hput.symm.trans h)
    rw [readText, hread]
    rfl
  · rw [hdevice] at htrue
    cases htrue
  · rw [hwrite] at h
    cases h

end StepRunner.FileTree
