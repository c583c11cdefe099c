import StepRunner.Fault
import StepRunner.Stub.Library

/-!
# Loading a stub library

The path of a stub library has to lead to a file. The loader of the system then looks for the
library in its own way, and the entry points that a module is set up with are resolved.
-/

namespace StepRunner.Stub

inductive LoadError where
  | missing (p : Path)
  /-- The loader gives no library, for a reason in its own words. -/
  | unloadable (p : Path) (reason : String)
  | unresolved (entryPoint : EntryPoint)
  deriving DecidableEq, Repr

def LoadError.fault : LoadError → Fault
  | missing p => { kind := .moduleLoad, message := s!"Stub module '{p.text}' does not exist" }
  | unloadable p reason =>
    { kind := .moduleLoad
      message := s!"Could not load '{p.text}': {reason}"
      caused := true }
  | unresolved e =>
    { kind := .binding
      message := s!"Could not resolve entry point '{e.symbol}'"
      caused := true }

/-- What loading a library gives that lacks an export, if it is one that is resolved later. -/
def loadAnswer (lacks : Option EntryPoint) : Except LoadError (Option EntryPoint) :=
  match EntryPoint.onLoad.find? (lacks = some ·) with
  | some e => .error (.unresolved e)
  | none => .ok lacks

/-- Loads the library at a path. Gives the export it lacks, if it is one that is resolved later. -/
def Library.load {ω : Type} (L : Library ω) (files : FileTree) (p : Path) :
    Except LoadError (Option EntryPoint) :=
  if files.isFile p then
    match L.loader files p with
    | .error reason => .error (.unloadable p reason)
    | .ok lacks => loadAnswer lacks
  else .error (.missing p)

theorem Library.load_of_file {ω : Type} {L : Library ω} {files : FileTree} {p : Path}
    {lacks : Option EntryPoint} (hfile : files.isFile p = true)
    (hloader : L.loader files p = .ok lacks) : L.load files p = loadAnswer lacks := by
  rw [load, if_pos hfile, hloader]

/-- A loader that takes every file for what it holds. -/
def plainLoader (files : FileTree) (p : Path) : Except String (Option EntryPoint) :=
  match files.file? p with
  | some (_, .library lacks) => .ok lacks
  | some _ => .error "not a shared library"
  | none => .error "no such library"

/-- A plain loader loads a library from its file. -/
theorem Library.load_of_plain {ω : Type} {L : Library ω} {files : FileTree} {p : Path}
    {place : Place} {lacks : Option EntryPoint} (hplain : L.loader = plainLoader)
    (hfile : files.file? p = some (place, .library lacks)) : L.load files p = loadAnswer lacks :=
  load_of_file (by rw [FileTree.isFile, hfile]; rfl) (by rw [hplain, plainLoader, hfile])

end StepRunner.Stub
