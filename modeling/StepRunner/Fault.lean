import StepRunner.FileTree.Basic
import StepRunner.Source

/-!
# Faults

What is shown to the operator when something goes wrong. The stages keep their own error types,
with the causes as constructors; each turns into a `Fault` by a `fault` function beside it. Faults
of class `step` fail one step and leave the run going, all others end it.
-/

namespace StepRunner

inductive FaultKind where
  | parse
  | compile
  | moduleLoad
  | init
  | context
  | binding
  | unknownTest
  | notExecutable
  | timeout
  | interrupted
  | script
  | config
  | io
  deriving DecidableEq, Repr

inductive FaultClass where
  | parse
  | compile
  | binding
  | step
  | interrupted
  | script
  | config
  | io
  deriving DecidableEq, Repr

def FaultClass.label : FaultClass → String
  | parse => "Parse"
  | compile => "Compile"
  | binding => "Binding"
  | step => "Step"
  | interrupted => "Interrupted"
  | script => "Script"
  | config => "Config"
  | io => "Io"

/-- The diagnostic code. -/
def FaultClass.code (c : FaultClass) : String := "torso::" ++ c.label.toLower

namespace FaultKind

def all : List FaultKind :=
  [parse, compile, moduleLoad, init, context, binding, unknownTest, notExecutable, timeout,
   interrupted, script, config, io]

def label : FaultKind → String
  | parse => "Parse"
  | compile => "Compile"
  | moduleLoad => "ModuleLoad"
  | init => "Init"
  | context => "Context"
  | binding => "Binding"
  | unknownTest => "UnknownTest"
  | notExecutable => "NotExecutable"
  | timeout => "Timeout"
  | interrupted => "Interrupted"
  | script => "Script"
  | config => "Config"
  | io => "Io"

def ofLabel? (s : String) : Option FaultKind := all.find? (·.label = s)

/-- What a message of this kind is introduced with. -/
def heading : FaultKind → String
  | parse => "Parse error"
  | compile => "Compile error"
  | moduleLoad => "Module load error"
  | init => "Init error"
  | context => "Context error"
  | binding => "Binding error"
  | unknownTest => "Unknown test"
  | notExecutable => "Not executable"
  | timeout => "Timeout"
  | interrupted => "Interrupted"
  | script => "Script error"
  | config => "Config error"
  | io => "I/O error"

def toClass : FaultKind → FaultClass
  | parse => .parse
  | compile => .compile
  | moduleLoad | init | context | binding => .binding
  | unknownTest | notExecutable | timeout => .step
  | interrupted => .interrupted
  | script => .script
  | config => .config
  | io => .io

end FaultKind

structure Fault where
  kind : FaultKind
  message : String
  source : Option Source := none
  span : Option Span := none
  help : Option String := none
  /-- Whether an error from outside lies under this one. -/
  caused : Bool := false
  deriving DecidableEq, Repr

namespace Fault

def display (f : Fault) : String := f.kind.heading ++ ": " ++ f.message

def toClass (f : Fault) : FaultClass := f.kind.toClass

/-- Fails one step; the run may go on. -/
def isStepFault (f : Fault) : Bool := f.toClass == .step

def isFatal (f : Fault) : Bool := !f.isStepFault

def withHelp (f : Fault) (help : String) : Fault := { f with help := some help }

/-- Exit status of a command that ends with this fault. -/
def exitStatus (f : Fault) : Nat := if f.toClass = .interrupted then 130 else 1

/-- The label under the offending text: its words, where it starts and how long it is. -/
def label? (f : Fault) : Option (String × Nat × Nat) :=
  f.span.map fun s => (f.message, s.start, if s.start < s.stop then s.stop - s.start else 1)

/-- The offending text. -/
def excerpt? (f : Fault) : Option String := do (← f.source).slice? (← f.span)

/-- A file operation that failed with the given words. -/
def io (operation : String) (p : String) (cause : String) : Fault where
  kind := .io
  message := s!"Failed to {operation} '{p}': {cause}"
  caused := true

def ofFileError (operation : String) (p : Path) (e : FileError) : Fault :=
  io operation p.text e.message

theorem exitStatus_eq_interrupted_iff (f : Fault) : f.exitStatus = 130 ↔ f.kind = .interrupted := by
  cases f with
  | mk kind => cases kind <;> simp [exitStatus, toClass, FaultKind.toClass]

end Fault

end StepRunner
