import Std.Time.Zoned.Database
import StepRunner.Command.Execute
import StepRunner.FileTree.System
import StepRunner.Stub.ByName

/-!
# The program

Reads what lies below the working directory, carries out the command, and writes what it printed
and the files it changed. No native code is loaded: a stub library on disk is bytes like any other.
-/

namespace StepRunner.Program

def placeOf (path : String) : Place := (FileTree.segments path).filter (· ≠ "")

/-- The entries below a directory. A symbolic link leads to the end of its chain. -/
partial def entriesBelow (directory : String) : IO (List (Place × Node)) := do
  let mut entries := []
  for e in ← (← IO.FS.realPath directory).readDir do
    let path := e.path.toString
    match (← e.path.symlinkMetadata).type with
    | .dir => entries := (placeOf path, .directory) :: (← entriesBelow path) ++ entries
    | .symlink => entries := (placeOf path, .link (← IO.FS.realPath e.path).toString) :: entries
    | .file =>
      let bytes ← IO.FS.readBinFile e.path
      entries := (placeOf path, .file (.ofBytes bytes.toList)) :: entries
    | .other => pure ()
  return entries

def snapshot : IO FileTree := do
  let directory := (← IO.currentDir).toString
  let t := FileTree.ofWorkingDirectory (placeOf directory)
  return { t with entries := (← entriesBelow directory) ++ t.entries }

/-- Writes the entries that differ from those found before. -/
def writeChanges (old new : FileTree) : IO Unit := do
  for (place, node) in new.entries do
    if old.lookup place ≠ some node then
      let path := (FileTree.pathOf place).text
      match node with
      | .directory => IO.FS.createDirAll path
      | .file (.text s) => IO.FS.writeFile path s
      | .file (.octets bytes) => IO.FS.writeBinFile path ⟨bytes.toArray⟩
      | .file (.library _) | .link _ | .device _ => pure ()

/-- The present moment, in universal time if the local time zone is not known. -/
def now : IO Timestamp := do
  let moment ← Std.Time.Timestamp.now
  let offset ← try
      let rules ← Std.Time.Database.defaultGetLocalZoneRules
      pure (rules.timezoneAt moment).offset.second.val
    catch _ => pure 0
  return ⟨moment.val.second.val, moment.val.nano.val.toNat, offset⟩

def report (f : Fault) : String :=
  s!"{f.toClass.code}\n\n  {f.display}\n" ++ (f.help.map fun h => s!"  help: {h}\n").getD ""

end StepRunner.Program

open StepRunner in
def main (args : List String) : IO UInt32 := do
  let files ← Program.snapshot
  let colored := (← IO.getEnv "NO_COLOR").isNone && (← (← IO.getStdout).isTty)
  let started ← Program.now
  let finish := (Command.respond Stub.ByName.library started colored files args {}).value
  Program.writeChanges files finish.files
  IO.print finish.stdout
  if let some f := finish.fault then IO.eprint (Program.report f)
  if let .error (.usage e) := Command.ofArguments args then IO.eprintln s!"error: {e.message}"
  return finish.status.toUInt32
