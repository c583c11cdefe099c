import StepRunner.Text.Split
import StepRunner.Text.Octets

/-!
# Paths

A path is a text with `/` between its segments. Empty segments and `.` say nothing, a leading `.`
apart; two paths are `alike` if they have the same components. `join` and `parent` keep the text
as it was written, `fileName`, `fileStem` and `extension` read its last component.

The bytes of a path can be no text to a system. Only the name of a configuration file may be so
here (`ConfigFile.octets`); the paths that are given on the command line, in a configuration or in
a run-file, and the names in a file tree, are text.
-/

namespace StepRunner

structure Path where
  text : String
  deriving DecidableEq, Repr

namespace Path

def chars (p : Path) : List Char := p.text.toList

def ofChars (cs : List Char) : Path := ⟨String.ofList cs⟩

inductive Component where
  | root
  | here
  | up
  | name (text : String)
  deriving DecidableEq, Repr

/-- A segment that adds nothing to the path it stands in. -/
def isIdle (segment : List Char) : Bool := segment = [] || segment = ['.']

/-- The path as its leading mark (`/`, `.` or none) and the text behind it. -/
def split (p : Path) : List Char × List Char :=
  match p.chars with
  | '/' :: r => (['/'], r)
  | '.' :: '/' :: r => (['.'], '/' :: r)
  | ['.'] => (['.'], [])
  | cs => ([], cs)

def segmentComponent (segment : List Char) : Component :=
  if segment = ['.', '.'] then .up else .name (String.ofList segment)

def components (p : Path) : List Component :=
  let body := (Text.splitAt '/' p.split.2).filter (!isIdle ·) |>.map segmentComponent
  match p.split.1 with
  | ['/'] => .root :: body
  | ['.'] => .here :: body
  | _ => body

/-- Written in two ways, but the same components. -/
def alike (p q : Path) : Bool := p.components == q.components

/-- `p` with `q` behind it; an absolute `q` stands alone. -/
def join (p : Path) (q : String) : Path :=
  if q.startsWith "/" then ⟨q⟩
  else if p.text.isEmpty || p.chars.getLast? == some '/' then ⟨p.text ++ q⟩
  else ⟨p.text ++ "/" ++ q⟩

/-- Segments, the last one first, without those at the front that add nothing. -/
def settle (rev : List (List Char)) : List (List Char) := rev.dropWhile isIdle

def joinSegments (segments : List (List Char)) : List Char :=
  ['/'].intercalate segments

/-- The path without its last component; none for the root and for the empty path. -/
def parent (p : Path) : Option Path :=
  match settle (Text.splitAt '/' p.split.2).reverse with
  | _ :: above => some (ofChars (p.split.1 ++ joinSegments (settle above).reverse))
  | [] => if p.split.1 = ['.'] then some ⟨""⟩ else none

/-- The directory a file lies in, the empty path if it has none. -/
def directory (p : Path) : Path := p.parent.getD ⟨""⟩

/-- The last component, if it is a name. -/
def fileName (p : Path) : Option String :=
  match p.components.getLast? with
  | some (.name n) => some n
  | _ => none

/-- A file name as what stands before its last dot and what stands behind it. A dot at the very
front divides nothing. -/
def splitName (n : List Char) : List Char × Option (List Char) :=
  match Text.splitAt '.' n |>.reverse with
  | last :: above =>
    let before := ['.'].intercalate above.reverse
    if before.isEmpty then (n, none) else (before, some last)
  | [] => (n, none)

def fileStem (p : Path) : Option String :=
  p.fileName.map fun n => String.ofList (splitName n.toList).1

def extension (p : Path) : Option String :=
  p.fileName.bind fun n => (splitName n.toList).2.map String.ofList

end Path

/-- A file name that may hold bytes that are no text. -/
inductive ConfigFile where
  | path (p : Path)
  | octets (bytes : List UInt8)
  deriving DecidableEq, Repr

/-- The name as text; bytes that are none show as U+FFFD. -/
def ConfigFile.display : ConfigFile → String
  | .path p => p.text
  | .octets bs => String.ofList (Text.decodeLossy bs)

/-- The name of these bytes. -/
def ConfigFile.ofBytes (bs : List UInt8) : ConfigFile :=
  match Text.decode? bs with
  | some s => .path ⟨s⟩
  | none => .octets bs

end StepRunner
