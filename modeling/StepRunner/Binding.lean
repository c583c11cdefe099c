import StepRunner.Activity
import StepRunner.Fault

/-!
# Bindings

A stub module while it is in use. `attach` sets the module up, `close` shuts it down; a module
that was set up is shut down exactly once, also if it cannot be bound.
-/

namespace StepRunner

open Stub (Handle BindError)
open Activity (call)

/-- The failure of binding as it is shown. -/
def Stub.BindError.fault : BindError → Fault
  | .unresolved e =>
    { kind := .binding
      message := s!"Could not resolve entry point '{e.symbol}'"
      caused := true }
  | .refused message => { kind := .binding, message }

inductive AttachError where
  | notInitialized
  | noContext
  | unbound (e : BindError)
  deriving DecidableEq, Repr

def AttachError.fault : AttachError → Fault
  | notInitialized => { kind := .init, message := "Could not initialize stub module" }
  | noContext => { kind := .context, message := "Could not get base context" }
  | unbound e => e.fault

/-- A module that was set up. It is held until it is shut down; with a context all steps run in it
is ready for use. -/
structure Binding where
  held : Bool
  context : Option Handle
  deriving DecidableEq, Repr

/-- What is asked of a module that is closed. -/
def alreadyReleased : Fault :=
  { kind := .binding, message := "Stub module has already been released" }

namespace Binding

variable {ω : Type}

def isOpen (b : Binding) : Bool := b.held

/-- The context, unless the module is closed. -/
def table (b : Binding) : Except Fault Handle :=
  match b.context with
  | some h => .ok h
  | none => .error alreadyReleased

/-- Shuts the module down unless that has been done. -/
def close (W : World ω) (b : Binding) : Activity ω Binding :=
  if b.held then do
    call W .shutdown
    return ⟨false, none⟩
  else return { b with context := none }

/-- Sets the module up. From its initialization on it is held, and what cannot be made ready for use
is closed. -/
def attach (W : World ω) : Activity ω (Except AttachError Binding) := do
  if ← call W .init then
    let b : Binding := ⟨true, none⟩
    let context ← call W .baseContext
    if context.isNull then
      let _ ← b.close W
      return .error .noContext
    else match ← call W .bind with
      | .error e =>
        let _ ← b.close W
        return .error (.unbound e)
      | .ok () => return .ok { b with context := some context }
  else return .error .notInitialized

/-- A binding in words. -/
def describe (b : Binding) : String :=
  let table := match b.context with
    | some h => "Some(BindingTable \x7b context: Handle(" ++ toString h.address ++ "), .. \x7d)"
    | none => "None"
  "Binding \x7b open: " ++ toString b.isOpen ++ ", table: " ++ table ++ " \x7d"

end Binding

end StepRunner
