import StepRunner.FileTree.Basic

/-!
# Changing a file tree

Writing a file replaces what it held or takes a free place in a directory that exists; a directory
is made together with those above it, and what was made of them stays if not all can be. All changes
go through `put`, which `lookup_put` describes.
-/

namespace StepRunner.FileTree

/-- `n` at a place, whatever stood there. -/
def put (t : FileTree) (place : Place) (n : Node) : FileTree :=
  if t.entries.any (·.1 = place) then
    { t with entries := t.entries.map fun e => if e.1 = place then (place, n) else e }
  else { t with entries := t.entries ++ [(place, n)] }

theorem lookup_replace (entries : List (Place × Node)) (place q : Place) (n : Node) :
    (entries.map fun e => if e.1 = place then (place, n) else e).lookup q =
      if q = place ∧ entries.any (·.1 = place) then some n else entries.lookup q := by
  induction entries with
  | nil => simp
  | cons e entries ih =>
    obtain ⟨p, m⟩ := e
    simp only [List.map_cons, List.any_cons]
    by_cases hp : p = place
    · by_cases hq : q = place
      · simp [hp, hq]
      · simp [List.lookup_cons, hp, hq, beq_false_of_ne hq, ih]
    · simp only [hp, if_false, decide_false, Bool.false_or, List.lookup_cons, ih]
      split
      · next h =>
        have hq : ¬ q = place := fun hq => hp (hq ▸ (beq_iff_eq.mp h).symm)
        simp only [hq, false_and, if_false]
      · rfl

/-- What stands at a place after `n` was put somewhere; the working directory stays as it is. -/
theorem lookup_put (t : FileTree) (place q : Place) (n : Node) :
    (t.put place n).lookup q =
      if q.isPrefixOf t.cwd then some .directory else if q = place then some n else t.lookup q := by
  unfold put
  split
  · next h =>
    unfold lookup
    simp only [lookup_replace, h]
    split <;> simp
  · next h =>
    have hn : t.entries.lookup place = none := by
      rw [List.lookup_eq_none_iff]
      intro e he
      have := fun hq => h (List.any_eq_true.mpr ⟨e, he, decide_eq_true hq⟩)
      exact bne_iff_ne.mpr fun hc => this hc.symm
    unfold lookup
    split
    · rfl
    · by_cases hq : q = place
      · simp [hq, List.lookup_append, hn]
      · simp [List.lookup_append, List.lookup_cons, hq, beq_false_of_ne hq]

def write (t : FileTree) (p : Path) (c : Content) : Except FileError FileTree := do
  match ← t.locate .file p with
  | .taken place =>
    match t.lookup place with
    | some (.file _) => return t.put place (.file c)
    | some (.device d) =>
      d.write c
      return t
    | _ => throw .isDirectory
  | .free place => return t.put place (.file c)

def writeText (t : FileTree) (p : Path) (s : String) : Except FileError FileTree :=
  t.write p (.text s)

/-- Opens a file to add to its end: an existing one stays, a new one is empty. -/
def touch (t : FileTree) (p : Path) : Except FileError FileTree :=
  match t.locate .file p with
  | .ok (.taken place) =>
    match t.lookup place with
    | some (.file _) => .ok t
    | _ => t.write p (.text "")
  | _ => t.write p (.text "")

/-- Copies a file. The target is emptied before the source is read, so a file copied to itself
ends empty. -/
def copy (t : FileTree) (source target : Path) : Except FileError FileTree := do
  let place ← t.resolve source
  match t.lookup place with
  | some (.file _) =>
    let emptied ← t.write target (.text "")
    match emptied.lookup place with
    | some (.file c) => emptied.write target c
    | _ => return emptied
  | some (.device .terminal) => throw .noDevice
  | _ => throw .notRegular

/-- Makes one directory; nothing may stand at its place, not even a link. -/
def makeDirectory (t : FileTree) (p : Path) : Except FileError FileTree := do
  match ← t.locate .entry p with
  | .taken _ => throw .alreadyExists
  | .free place => return t.put place .directory

/-- Makes one directory unless there is one. -/
def ensureDirectory (t : FileTree) (p : Path) : FileTree × Except FileError Unit :=
  match t.makeDirectory p with
  | .ok t' => (t', .ok ())
  | .error e => (t, if t.isDirectory p then .ok () else .error e)

/-- Makes the directory of the first path, behind those of the others, which go upwards, as far as
they are missing. -/
def ensureChain (t : FileTree) : List Path → FileTree × Except FileError Unit
  | [] => (t, .ok ())
  | p :: above =>
    if p.text = "" then (t, .ok ())
    else match t.ensureDirectory p with
      | (t, .error .notFound) =>
        match t.ensureChain above with
        | (t, .ok ()) => t.ensureDirectory p
        | failed => failed
      | made => made

/-- A path and the directories above it, at most `n` of them. -/
def upwards : Nat → Path → List Path
  | 0, p => [p]
  | n + 1, p =>
    match p.parent with
    | none => [p]
    | some q => p :: upwards n q

/-- Makes a directory and those above it that are missing. Where one cannot be made, those that were
made before stay. -/
def makeDirectories (t : FileTree) (p : Path) : FileTree × Except FileError Unit :=
  t.ensureChain (upwards p.chars.length p)

end StepRunner.FileTree
