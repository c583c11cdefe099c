import StepRunner.RunFile.Instruction
import StepRunner.Step.Basic
import StepRunner.Summary

/-!
# What commands print

Instructions and steps one a line, and the line that sums up a run. In color that line has a
code before each of its parts; counts above zero stand out.
-/

namespace StepRunner.Output

/-- What is printed when there is nothing to list. -/
def nothing : String := "(empty)\n"

def list {α : Type} (line : α → String) (xs : List α) : String :=
  if xs.isEmpty then nothing else String.join (xs.map fun x => line x ++ "\n")

def instructions : List RunFile.Instruction → String :=
  list fun i => s!"{i.file.text}:{i.line}: {i.text}"

/-- A number at the right end of `width` columns. -/
def alignRight (width n : Nat) : String :=
  String.ofList (List.replicate (width - (toString n).length) ' ') ++ toString n

def step (s : Step) (number : Nat) : String :=
  let config := (s.configFile.map ConfigFile.display).getD "-"
  s!"{alignRight 4 number}  {s.name}  config={config}  repeat={s.repeats}"

def steps (ss : List Step) : String := list (fun (s, i) => step s (i + 1)) ss.zipIdx

inductive Color where
  | green
  | red
  | yellow
  deriving DecidableEq, Repr

def Color.number : Color → Nat
  | green => 32
  | red => 31
  | yellow => 33

def code (n : Nat) : String := s!"\x1b[{n}m"

def plain : String := code 0

def bold : String := code 1

/-- One count of the summary, with what makes it stand out. -/
def count (colored : Bool) (color : Color) (label : String) (n : Nat) : String :=
  let style := if !colored then "" else if n = 0 then plain else plain ++ bold ++ code color.number
  s!"{style}{n} {label}  "

def summary (colored : Bool) (c : Counts) : String :=
  (if colored then plain ++ bold else "") ++ "Summary: " ++
    count colored .green "passed" c.passed ++ count colored .red "failed" c.failed ++
    count colored .yellow "untested" c.skipped ++
    (if colored then plain else "") ++ "\n"

end StepRunner.Output
