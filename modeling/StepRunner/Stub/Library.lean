import StepRunner.Activity
import StepRunner.FileTree.Basic
import StepRunner.Text.Units

/-!
# Stub libraries

A stub module in a shared library. Texts cross over as UTF-16 with a zero unit behind them,
together with the number of units; a truth value comes back as a byte. `Library.world` is the
library as the runs see it.
-/

namespace StepRunner.Stub

/-- A text as it is handed to a library. -/
structure Buffer where
  units : List UInt16
  /-- The number of units as a 32-bit integer, the zero unit included. -/
  length : Int
  deriving DecidableEq, Repr

/-- The greatest length that can be handed over. -/
def maxLength : Nat := 2147483647

def Buffer.ofText (s : String) : Buffer :=
  let units := Text.encodeUnits s.toList ++ [0]
  ⟨units, (min units.length maxLength : Nat)⟩

/-- The text in a buffer, its last unit being dropped. -/
def Buffer.text (b : Buffer) : String := String.ofList (Text.decodeUnits b.units.dropLast)

/-- A call of an exported function. -/
inductive ExportCall where
  | init
  | baseObject
  | testId (name : Buffer)
  | getClass (className : Buffer) (context : Handle)
  | canExecute (handler : Handle) (id : Int)
  | execute (handler : Handle) (id : Int) (config : Buffer)
  | threadedExecute (handler : Handle) (id : Int) (config : Buffer)
  | threadedResult
  | submitClass (className : Buffer) (handler context : Handle)
  | shutdown
  deriving DecidableEq, Repr

def ExportCall.entryPoint : ExportCall → EntryPoint
  | init => .init
  | baseObject => .baseObject
  | testId _ => .testId
  | getClass _ _ => .getClass
  | canExecute _ _ => .canExecute
  | execute _ _ _ => .execute
  | threadedExecute _ _ _ => .threadedExecute
  | threadedResult => .threadedResult
  | submitClass _ _ _ => .submitClass
  | shutdown => .shutdown

abbrev ExportCall.Answer : ExportCall → Type
  | init => UInt8
  | baseObject => Handle
  | testId _ => Int
  | getClass _ _ => Handle
  | canExecute _ _ => UInt8
  | execute _ _ _ => Int
  | threadedExecute _ _ _ => Handle
  | threadedResult => UInt8 × Int
  | submitClass _ _ _ => Unit
  | shutdown => Unit

/-- Surroundings with a library that may answer in any way, once the loader has found it. -/
structure Library (ω : Type) extends Surroundings ω where
  /-- What the loader of the system makes of the path of a file: a library, with the first entry
  point it lacks, or the reason why there is none. -/
  loader : FileTree → Path → Except String (Option EntryPoint)
  answer : (e : ExportCall) → ω → e.Answer × ω
  now_answer : ∀ e w, now w ≤ now (answer e w).2
  raised_answer : ∀ e w, raised w = true → raised (answer e w).2 = true
  /-- An empty sleep takes some time if the result is not there yet. -/
  now_nap : ∀ w, (answer .threadedResult w).1.1 = 0 →
    now (answer .threadedResult w).2 < now (sleep 0 (answer .threadedResult w).2)

/-- What binding a library gives that lacks an export; binding calls nothing. -/
def bindAnswer (lacks : Option EntryPoint) : Except BindError Unit :=
  match EntryPoint.onBind.find? (lacks = some ·) with
  | some e => .error (.unresolved e)
  | none => .ok ()

namespace Library

variable {ω : Type}

/-- A call of the stub module, made by calling the library. -/
def respond (L : Library ω) (lacks : Option EntryPoint) : (c : Call) → ω → c.Answer × ω
  | .init, w => let r := L.answer .init w; (r.1 != 0, r.2)
  | .baseContext, w => L.answer .baseObject w
  | .bind, w => (bindAnswer lacks, w)
  | .resolve name, w => L.answer (.testId (.ofText name)) w
  | .getHandler cls context, w => L.answer (.getClass (.ofText cls) context) w
  | .canExecute handler id, w => let r := L.answer (.canExecute handler id) w; (r.1 != 0, r.2)
  | .execute handler id config, w => L.answer (.execute handler id (.ofText config)) w
  | .start handler id config, w => L.answer (.threadedExecute handler id (.ofText config)) w
  | .poll, w =>
    let r := L.answer .threadedResult w
    (if r.1.1 != 0 then some r.1.2 else none, r.2)
  | .release cls handler context, w => L.answer (.submitClass (.ofText cls) handler context) w
  | .shutdown, w => L.answer .shutdown w

def world (L : Library ω) (lacks : Option EntryPoint) : World ω where
  toSurroundings := L.toSurroundings
  answer := L.respond lacks
  now_answer c w := by
    cases c
    case bind => exact Nat.le_refl _
    all_goals exact L.now_answer _ _
  raised_answer c w h := by
    cases c
    case bind => exact h
    all_goals exact L.raised_answer _ _ h
  now_nap w h := by
    refine L.now_nap w ?_
    by_cases hready : (L.answer .threadedResult w).1.1 = 0
    · exact hready
    · simp [respond, hready] at h

end Library

end StepRunner.Stub
