import StepRunner.Session

/-!
# Histories of a stub module

All that can be done with a module from its opening on: a binding is used in any way until it is
dropped, or it is handed over to a session that is used in any way until it is dropped. To drop a
binding is to close it. Between two uses anything may happen to the surroundings.
-/

namespace StepRunner

open Stub (Library)

variable {ω : Type}

/-- The surroundings as a run sees them to which the flag does or does not belong. -/
def World.heard (W : World ω) (attached : Bool) : World ω := if attached then W else W.deaf

/-! ### Bindings -/

namespace Binding

inductive Use (ω : Type) where
  | lookup
  | execute (attached : Bool) (config : Config) (step : Step)
  | run (attached : Bool) (config : Config) (steps : List Step) (summary : Summary)
  | close
  | meanwhile (change : ω → ω)

def Use.isClose : Use ω → Bool
  | .close => true
  | _ => false

/-- Uses a binding; steps and runs are executed with its table, if it has one. -/
def use (W : World ω) (b : Binding) : Use ω → Activity ω Binding
  | .lookup => return b
  | .execute attached config step =>
    match b.table with
    | .error _ => return b
    | .ok context => do
      let _ ← step.execute (W.heard attached) config context
      return b
  | .run attached config steps summary =>
    match b.table with
    | .error _ => return b
    | .ok context => do
      let _ ← Run.into (W.heard attached) config context steps summary
      return b
  | .close => b.close W
  | .meanwhile change => fun w => ⟨b, [], change w⟩

def useAll (W : World ω) : Binding → List (Use ω) → Activity ω Binding
  | b, [] => return b
  | b, u :: us => do useAll W (← b.use W u) us

end Binding

/-! ### Sessions -/

namespace Session

inductive Use (ω : Type) where
  /-- Its counts are asked for, or a report is written. -/
  | inspect
  | run (attached : Bool)
  | runAndReport (attached : Bool) (files : FileTree) (report : Path)
  | close
  | meanwhile (change : ω → ω)

def Use.isClose : Use ω → Bool
  | .close => true
  | _ => false

def use (W : World ω) (s : Session) : Use ω → Activity ω Session
  | .inspect => return s
  | .run attached => Prod.snd <$> s.run (W.heard attached)
  | .runAndReport attached files report =>
    (fun r => r.2.1) <$> (suite (W.heard attached)).runAndReport report (s, files)
  | .close => s.close W
  | .meanwhile change => fun w => ⟨s, [], change w⟩

def useAll (W : World ω) : Session → List (Use ω) → Activity ω Session
  | s, [] => return s
  | s, u :: us => do useAll W (← s.use W u) us

/-- Uses a session and drops it. Gives its binding as it was when it was dropped. -/
def finish (W : World ω) (s : Session) (uses : List (Use ω)) : Activity ω Binding := do
  let s ← s.useAll W uses
  let _ ← s.binding.close W
  return s.binding

end Session

/-! ### Whole histories -/

/-- What becomes of a binding in the end. -/
inductive Binding.Fate (ω : Type) where
  | dropped
  | session (files : FileTree) (config : Config) (started : Timestamp) (runFile : Path)
      (uses : List (Session.Use ω))

/-- Gives the binding as it was when it was dropped, unless no session came about. -/
def Binding.meet (W : World ω) (b : Binding) : Fate ω → Activity ω (Option Binding)
  | .dropped => do
    let _ ← b.close W
    return some b
  | .session files config started runFile uses => do
    match ← Session.withBinding W files config started runFile b with
    | .error _ => return none
    | .ok s => some <$> s.finish W uses

/-- Uses a binding from its opening on. Gives it as it was when it was dropped, if there was any. -/
def Binding.live {ε : Type} (W : World ω) (opening : Activity ω (Except ε Binding))
    (uses : List (Use ω)) (fate : Fate ω) : Activity ω (Option Binding) := do
  match ← opening with
  | .error _ => return none
  | .ok b => (← b.useAll W uses).meet W fate

/-- What becomes of a module. -/
inductive History (ω : Type) where
  | attached (W : World ω) (uses : List (Binding.Use ω)) (fate : Binding.Fate ω)
  | loaded (L : Library ω) (files : FileTree) (library : Path) (uses : List (Binding.Use ω))
      (fate : Binding.Fate ω)
  | session (L : Library ω) (files : FileTree) (config : Config) (started : Timestamp)
      (runFile library : Path) (uses : List (Session.Use ω))

/-- Whether a session is closed by one of its uses. -/
def Binding.Fate.closes : Binding.Fate ω → Bool
  | .dropped => false
  | .session _ _ _ _ uses => uses.any Session.Use.isClose

namespace History

/-- Whether the module is closed before it is dropped. -/
def closes : History ω → Bool
  | attached _ uses fate => uses.any Binding.Use.isClose || fate.closes
  | loaded _ _ _ uses fate => uses.any Binding.Use.isClose || fate.closes
  | session _ _ _ _ _ _ uses => uses.any Session.Use.isClose

/-- Gives the binding as it was when it was dropped, if there was any. -/
def play : History ω → Activity ω (Option Binding)
  | attached W uses fate => Binding.live W (Binding.attach W) uses fate
  | loaded L files library uses fate =>
    Binding.live (L.world none) (Binding.openLibrary L files library) uses fate
  | session L files config started runFile library uses => do
    match ← Session.openLibrary L files config started runFile library with
    | .error _ => return none
    | .ok s => some <$> s.finish (L.world none) uses

end History

end StepRunner
