import StepRunner.Path
import StepRunner.Stub.EntryPoint
import StepRunner.Text.Blank

/-!
# File trees

Directories, files, symbolic links and devices as a finite association of places to nodes. A place
is the list of names from the root down, free of links, `.` and `..`; `resolve` finds the place a
path leads to from the working directory, and all other lookups go through it.
-/

namespace StepRunner

/-- What a file holds: text, bytes that are no text, or a stub library, which may lack an export. -/
inductive Content where
  | text (s : String)
  | octets (bytes : List UInt8)
  | library (lacks : Option Stub.EntryPoint)
  deriving DecidableEq, Repr

def Content.ofBytes (bytes : List UInt8) : Content :=
  match Text.decode? bytes with
  | some s => .text s
  | none => .octets bytes

def Content.isEmpty : Content → Bool
  | .text s => s.isEmpty
  | .octets bytes => bytes.isEmpty
  | .library _ => false

/-- Why a file could not be reached, read or written. -/
inductive FileError where
  | notFound
  | notDirectory
  | isDirectory
  | alreadyExists
  | tooManyLinks
  | nameTooLong
  | nulInPath
  | notUtf8
  | notRegular
  | noSpace
  | noDevice
  | outOfMemory
  deriving DecidableEq, Repr

def FileError.message : FileError → String
  | .notFound => "No such file or directory (os error 2)"
  | .notDirectory => "Not a directory (os error 20)"
  | .isDirectory => "Is a directory (os error 21)"
  | .alreadyExists => "File exists (os error 17)"
  | .tooManyLinks => "Too many levels of symbolic links (os error 40)"
  | .nameTooLong => "File name too long (os error 36)"
  | .nulInPath => "file name contained an unexpected NUL byte"
  | .notUtf8 => "stream did not contain valid UTF-8"
  | .notRegular => "the source path is neither a regular file nor a symlink to a regular file"
  | .noSpace => "No space left on device (os error 28)"
  | .noDevice => "No such device or address (os error 6)"
  | .outOfMemory => "out of memory"

def Content.text? : Content → Except FileError String
  | .text s => .ok s
  | .octets _ | .library _ => .error .notUtf8

/-- The names from the root down. -/
abbrev Place := List String

/-- What keeps nothing of the text that is written to it. -/
inductive Device where
  /-- Takes any text and has none to read. -/
  | null
  /-- Takes any text and can be read without end. -/
  | endless
  /-- Has no room for a text and can be read without end. -/
  | full
  /-- Cannot be opened without a terminal. -/
  | terminal
  deriving DecidableEq, Repr

def Device.read : Device → Except FileError Content
  | .null => .ok (.text "")
  | .endless | .full => .error .outOfMemory
  | .terminal => .error .noDevice

/-- Whether a device takes a content. -/
def Device.write : Device → Content → Except FileError Unit
  | .null, _ | .endless, _ => .ok ()
  | .full, c => if c.isEmpty then .ok () else .error .noSpace
  | .terminal, _ => .error .noDevice

inductive Node where
  | directory
  | file (c : Content)
  | link (target : String)
  | device (d : Device)
  deriving DecidableEq, Repr

structure FileTree where
  entries : List (Place × Node)
  /-- The working directory. It and the directories above it always exist. -/
  cwd : Place
  deriving Repr

namespace FileTree

/-- The most links followed on the way to one file. -/
def linkLimit : Nat := 40

def nameLimit : Nat := 255

def pathLimit : Nat := 4095

/-- The path of a place, from the root. -/
def pathOf (place : Place) : Path := ⟨"/" ++ "/".intercalate place⟩

/-- Whether a path is short enough to be looked up. -/
def fits (p : Path) : Bool := Text.byteLength p.chars ≤ pathLimit

def lookup (t : FileTree) (place : Place) : Option Node :=
  if place.isPrefixOf t.cwd then some .directory else t.entries.lookup place

/-- Where a path ends: at a place that is taken, or at a free place of a directory that exists. -/
inductive Target where
  | taken (place : Place)
  | free (place : Place)
  deriving DecidableEq, Repr

/-- What a path is followed for. -/
inductive Purpose where
  /-- Something that exists. -/
  | existing
  /-- A file to write, which may be free yet. Its name does not end in `/`. -/
  | file
  /-- The entry of a directory, taken or free: a link in last place is not followed. -/
  | entry
  /-- Its path from the root, which is put together name by name and looked up at each of them. -/
  | fullPath
  deriving DecidableEq, Repr

def segments (s : String) : List String := (Text.splitAt '/' s.toList).map String.ofList

def startOf (s : String) (here : Place) : Place := if s.startsWith "/" then [] else here

/-- Follows segments from the directory `place`, along at most `links` links. -/
def walk (t : FileTree) (purpose : Purpose) (links : Nat) (place : Place) :
    List String → Except FileError Target
  | [] => .ok (.taken place)
  | s :: r =>
    if s = "" ∨ s = "." then t.walk purpose links place r
    else if s = ".." then t.walk purpose links place.dropLast r
    else
      let last := r.all (· = "")
      if purpose = .file ∧ last ∧ r ≠ [] then .error .isDirectory
      else if nameLimit < s.utf8ByteSize then .error .nameTooLong
      else if purpose = .fullPath ∧ ¬fits (pathOf (place ++ [s])) then .error .nameTooLong
      else match t.lookup (place ++ [s]) with
        | none => if last then .ok (.free (place ++ [s])) else .error .notFound
        | some .directory => t.walk purpose links (place ++ [s]) r
        | some (.file _) | some (.device _) =>
          if r = [] ∨ purpose = .entry ∧ last then .ok (.taken (place ++ [s]))
          else .error .notDirectory
        | some (.link target) =>
          if purpose = .entry ∧ last then .ok (.taken (place ++ [s]))
          else match links with
            | 0 => .error .tooManyLinks
            | n + 1 =>
              if target = "" then .error .notFound
              else t.walk purpose n (startOf target place) (segments target ++ r)
termination_by todo => (links, todo.length)

/-- Where a path leads, from the working directory. -/
def locate (t : FileTree) (purpose : Purpose) (p : Path) : Except FileError Target :=
  if p.text = "" then .error .notFound
  else if p.text.contains '\x00' then .error .nulInPath
  else if !fits p then .error .nameTooLong
  else t.walk purpose linkLimit (startOf p.text t.cwd) (segments p.text)

/-- The place of something that exists. -/
def resolve (t : FileTree) (p : Path) : Except FileError Place := do
  match ← t.locate .existing p with
  | .taken place => return place
  | .free _ => throw .notFound

theorem fits_of_locate {t : FileTree} {purpose : Purpose} {p : Path} {x : Target}
    (h : t.locate purpose p = .ok x) : fits p := by
  unfold locate at h
  split at h
  · cases h
  · split at h
    · cases h
    · split at h
      · cases h
      · next hf => simpa using hf

theorem fits_of_resolve {t : FileTree} {p : Path} {place : Place} (h : t.resolve p = .ok place) :
    fits p := by
  unfold resolve at h
  cases hl : t.locate .existing p with
  | ok x => exact fits_of_locate hl
  | error e =>
    rw [hl] at h
    cases h

/-- The one path without links, `.` and `..` to something that exists. It has to fit the limit,
which `p` need not. -/
def canonical (t : FileTree) (p : Path) : Except FileError Path :=
  if p.text = "" then .error .notFound
  else if p.text.contains '\x00' then .error .nulInPath
  else match t.walk .fullPath linkLimit (startOf p.text t.cwd) (segments p.text) with
    | .ok (.taken place) =>
      if fits (pathOf place) then .ok (pathOf place) else .error .nameTooLong
    | .ok (.free _) => .error .notFound
    | .error e => .error e

theorem fits_of_canonical {t : FileTree} {p q : Path} (h : t.canonical p = .ok q) : fits q := by
  unfold canonical at h
  split at h
  · cases h
  · split at h
    · cases h
    · split at h
      · split at h
        · next hf => cases h; exact hf
        · cases h
      · cases h
      · cases h

/-- The file a path leads to. -/
def file? (t : FileTree) (p : Path) : Option (Place × Content) :=
  match t.resolve p with
  | .error _ => none
  | .ok place =>
    match t.lookup place with
    | some (.file c) => some (place, c)
    | _ => none

theorem fits_of_file? {t : FileTree} {p : Path} {x : Place × Content} (h : t.file? p = some x) :
    fits p := by
  unfold file? at h
  split at h
  · cases h
  · next hr => exact fits_of_resolve hr

theorem mem_entries_of_file? {t : FileTree} {p : Path} {place : Place} {c : Content}
    (h : t.file? p = some (place, c)) : (place, Node.file c) ∈ t.entries := by
  unfold file? at h
  split at h
  · cases h
  · split at h
    · next hl =>
      cases h
      unfold lookup at hl
      split at hl
      · cases hl
      · obtain ⟨l₁, l₂, hes, _⟩ := List.lookup_eq_some_iff.mp hl
        simp [hes]
    · cases h

def isFile (t : FileTree) (p : Path) : Bool := (t.file? p).isSome

def isDirectory (t : FileTree) (p : Path) : Bool :=
  match t.resolve p with
  | .error _ => false
  | .ok place => t.lookup place == some .directory

/-- The content of a file, whatever it is. -/
def read (t : FileTree) (p : Path) : Except FileError Content := do
  let place ← t.resolve p
  match t.lookup place with
  | some (.file c) => return c
  | some (.device d) => d.read
  | some .directory => throw .isDirectory
  | _ => throw .notFound

def readText (t : FileTree) (p : Path) : Except FileError String := do
  (← t.read p).text?

end FileTree

end StepRunner
