import StepRunner.Stub.EntryPoint

/-!
# Calls to a stub module

What a run asks of a stub module, and the kind of answer each call has. Handles are opaque; the
null handle stands for failure.
-/

namespace StepRunner.Stub

/-- A context, a handler or a token of the module. -/
structure Handle where
  address : Nat
  deriving DecidableEq, Repr

namespace Handle

def null : Handle := ⟨0⟩

def isNull (h : Handle) : Bool := h = null

/-- The address in base 16. -/
def display (h : Handle) : String := "0x" ++ String.ofList (Nat.toDigits 16 h.address)

end Handle

/-- Why the entry points of a module could not be bound. -/
inductive BindError where
  | unresolved (entryPoint : EntryPoint)
  /-- The module refuses, in its own words. -/
  | refused (message : String)
  deriving DecidableEq, Repr

inductive Call where
  | init
  | baseContext
  | bind
  | resolve (name : String)
  | getHandler (className : String) (context : Handle)
  | canExecute (handler : Handle) (id : Int)
  | execute (handler : Handle) (id : Int) (config : String)
  | start (handler : Handle) (id : Int) (config : String)
  | poll
  | release (className : String) (handler context : Handle)
  | shutdown
  deriving DecidableEq, Repr

/-- The answers a call can have. -/
abbrev Call.Answer : Call → Type
  | init => Bool
  | baseContext => Handle
  | bind => Except BindError Unit
  | resolve _ => Int
  | getHandler _ _ => Handle
  | canExecute _ _ => Bool
  | execute _ _ _ => Int
  | start _ _ _ => Handle
  | poll => Option Int
  | release _ _ _ => Unit
  | shutdown => Unit

/-- Answers can be compared, so runs on a given module can be evaluated. -/
instance decidableEqAnswer : (c : Call) → DecidableEq c.Answer
  | .init | .canExecute _ _ => inferInstanceAs (DecidableEq Bool)
  | .baseContext | .getHandler _ _ | .start _ _ _ => inferInstanceAs (DecidableEq Handle)
  | .bind => fun
    | .ok (), .ok () => isTrue rfl
    | .error e, .error f => decidable_of_iff (e = f) ⟨congrArg _, fun h => Except.error.inj h⟩
    | .ok _, .error _ | .error _, .ok _ => isFalse nofun
  | .resolve _ | .execute _ _ _ => inferInstanceAs (DecidableEq Int)
  | .poll => inferInstanceAs (DecidableEq (Option Int))
  | .release _ _ _ | .shutdown => inferInstanceAs (DecidableEq Unit)

/-- Calls made for the sake of one step. -/
def Call.isPerStep : Call → Bool
  | init | baseContext | bind | shutdown => false
  | _ => true

end StepRunner.Stub
