import StepRunner.Path

/-!
# Script scopes

The variables a script leaves behind. A count is a number that is not negative, or the length of a
list.
-/

namespace StepRunner.Script

inductive Value where
  | int (n : Int)
  | text (s : String)
  | list (items : List Value)

/-- The count a value stands for. Counts have 64 bits. -/
def Value.count? : Value → Option Nat
  | int n => if 0 ≤ n then some n.toNat else none
  | list items => some items.length
  | text _ => none

/-- Variables with their values, the one set last in front. -/
structure Scope where
  vars : List (String × Value)

namespace Scope

def empty : Scope := ⟨[]⟩

def set (s : Scope) (name : String) (v : Value) : Scope := ⟨(name, v) :: s.vars⟩

def get? (s : Scope) (name : String) : Option Value := s.vars.lookup name

/-- The count of a variable, 0 if it has none. -/
def count (s : Scope) (name : String) : Nat := ((s.get? name).bind Value.count?).getD 0

/-- Where the script wrote its log. -/
def logFile (s : Scope) : Option Path :=
  match s.get? "logfile" with
  | some (.text p) => some ⟨p⟩
  | _ => none

@[simp] theorem get?_set_self (s : Scope) (name : String) (v : Value) :
    (s.set name v).get? name = some v := by
  simp [set, get?]

theorem get?_set_of_ne (s : Scope) {name other : String} (v : Value) (h : other ≠ name) :
    (s.set name v).get? other = s.get? other := by
  simp [set, get?, List.lookup_cons, beq_false_of_ne h]

end Scope

end StepRunner.Script
