import StepRunner.FileTree.Basic

/-!
# The system around a working directory

The directories and devices that are there before a program writes anything.
-/

namespace StepRunner.FileTree

def systemDirectories : List Place :=
  ["bin", "boot", "dev", "etc", "home", "media", "mnt", "opt", "proc", "root", "run", "sbin", "srv",
    "sys", "tmp", "usr", "var"].map ([·]) ++
  ["pts", "shm"].map (["dev", ·]) ++
  ["bin", "lib", "lib64", "local", "sbin", "share"].map (["usr", ·])

/-- The devices by name. The standard streams are among them. -/
def systemDevices : List (String × Device) :=
  [("null", .null), ("full", .full), ("zero", .endless), ("random", .endless),
    ("urandom", .endless), ("tty", .terminal), ("stdin", .null), ("stdout", .null),
    ("stderr", .null)]

/-- An empty working directory, to which the system has a link. -/
def ofWorkingDirectory (cwd : Place) : FileTree where
  entries :=
    systemDirectories.map (·, .directory) ++
    systemDevices.map (fun (name, d) => (["dev", name], .device d)) ++
    [(["proc", "self"], .directory), (["proc", "self", "cwd"], .link (pathOf cwd).text),
      (["lib"], .link "usr/lib"), (["lib64"], .link "usr/lib64")]
  cwd

end StepRunner.FileTree
