import StepRunner.Text.Blank
import StepRunner.Text.Split

/-!
# Lines of a run-file

What one trimmed line means: a comment, an include directive, the start or the end of a block, or
a step. A directive is `;`, the word `INCLUDE` in any case, `::` and the target, with blanks
allowed before and behind the word; the target ends at the next `::`.
-/

namespace StepRunner.RunFile

inductive Line where
  | comment
  /-- The target may be empty. -/
  | inclusion (target : String)
  /-- What stands behind the `(` says nothing. -/
  | blockOpen
  /-- The text behind `)*`, if a `*` follows. -/
  | blockClose (count : Option String)
  | step (text : String)
  deriving DecidableEq, Repr

namespace Line

/-- The rest of a text that starts with `word`, upper and lower case being the same. -/
def dropWord? (word : List Char) (cs : List Char) : Option (List Char) :=
  match word, cs with
  | [], cs => some cs
  | w :: ws, c :: r => if c.toUpper = w then dropWord? ws r else none
  | _ :: _, [] => none

/-- The target of the directive behind a `;`. -/
def directiveTarget? (cs : List Char) : Option (List Char) := do
  let rest ← dropWord? "INCLUDE".toList (Text.trimStart cs)
  match Text.trimStart rest with
  | ':' :: ':' :: target =>
    if '\n' ∈ target then none else some (Text.trim (Text.beforeDouble ':' target))
  | _ => none

/-- The text behind `*` at the end of a block. -/
def blockCount? (cs : List Char) : Option (List Char) :=
  match Text.trimStart cs with
  | '*' :: r => some (Text.trim r)
  | _ => none

def classify (text : String) : Line :=
  match text.toList with
  | ';' :: r => ((directiveTarget? r).map fun t => inclusion (String.ofList t)).getD comment
  | '(' :: _ => blockOpen
  | ')' :: r => blockClose ((blockCount? r).map String.ofList)
  | _ => step text

/-- The number of fields between commas. -/
def fieldCount (text : String) : Nat := (Text.splitAt ',' text.toList).length

theorem fieldCount_eq (text : String) : fieldCount text = text.toList.count ',' + 1 :=
  Text.length_splitAt ',' _

end Line

end StepRunner.RunFile
