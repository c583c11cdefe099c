import StepRunner.Proofs.FileTree.Canonical
import StepRunner.Proofs.Session.Lifecycle
import StepRunner.Proofs.Stub.Crossing

/-!
# A library does what the module does

What can be done with a module by hand, from its opening until it is dropped (`Desk.serve`). Done
with a library that plays a script it comes to the same as done with the script in-process, and the
library gets the same calls: the opening is compared call by call, all that is done behind it keeps
the two playbacks related (`Desk.finish_matches`).
-/

namespace StepRunner

open Stub (Call Handle Library Playback Script ExportCall)
open Activity (call bind_of_eq call_of_answer pure_behind Matches matches_pure call_matches)

/-! ### Operations -/

/-- What is at hand: a module, steps, and the summary of the runs that are counted together. -/
structure Desk where
  binding : Binding
  steps : List Step
  summary : Summary

/-- The summary tells the number of the steps. -/
def Desk.start (started : Timestamp) (steps : List Step) (b : Binding) : Desk :=
  ⟨b, steps, .start started steps.length⟩

/-- Steps and runs may be attached to the interrupt flag. -/
inductive Operation where
  | execute (attached : Bool) (config : Config) (index : Nat)
  /-- Runs all steps, with counts of their own. -/
  | runAll (attached : Bool) (config : Config) (started : Timestamp)
  /-- Runs all steps, adding to the counts. -/
  | runInto (attached : Bool) (config : Config)
  /-- Calls an entry point. -/
  | ask (c : Call) (perStep : c.isPerStep = true)
  | inspect
  | close
  /-- The flag is raised. -/
  | raise

/-- What an operation gives. -/
inductive Outcome where
  | nothing
  | refused (f : Fault)
  | executed (verdict : Except Halt Verdict)
  | ran (outcome : Except RunError Unit) (summary : Summary)
  | answered (c : Call) (a : c.Answer)
  | seen (isOpen : Bool) (table : Except Fault Handle) (words : String)

namespace Desk

section

variable {ω : Type} (W : World ω) (raise : ω → ω)

/-- Performs an operation. A closed module refuses all that would call it. -/
def perform (d : Desk) : Operation → Activity ω (Outcome × Desk)
  | .execute attached config index =>
    match d.binding.table with
    | .error f => return (.refused f, d)
    | .ok context =>
      match d.steps[index]? with
      | none => return (.nothing, d)
      | some step => do
        let (verdict, done) ← step.execute (W.heard attached) config context
        return (.executed verdict, { d with steps := d.steps.set index done })
  | .runAll attached config started =>
    match d.binding.table with
    | .error f => return (.refused f, d)
    | .ok context => do
      let r ← Run.all (W.heard attached) config context started d.steps
      return (.ran r.outcome r.summary, { d with steps := r.steps })
  | .runInto attached config =>
    match d.binding.table with
    | .error f => return (.refused f, d)
    | .ok context => do
      let r ← Run.into (W.heard attached) config context d.steps d.summary
      return (.ran r.outcome r.summary, { d with steps := r.steps, summary := r.summary })
  | .ask c _ =>
    match d.binding.table with
    | .error f => return (.refused f, d)
    | .ok _ => do return (.answered c (← call W c), d)
  | .inspect => return (.seen d.binding.isOpen d.binding.table d.binding.describe, d)
  | .close => do return (.nothing, { d with binding := ← d.binding.close W })
  | .raise => fun w => ⟨(.nothing, d), [], raise w⟩

/-- Performs operations one after another. Gives what came of each, and how it left the desk. -/
def performAll : Desk → List Operation → Activity ω (List (Outcome × Desk) × Desk)
  | d, [] => return ([], d)
  | d, op :: ops => do
    let (outcome, d) ← d.perform W raise op
    let (rest, last) ← performAll d ops
    return ((outcome, d) :: rest, last)

/-- Performs operations and drops the module. Gives the desk as it was before that. -/
def finish (d : Desk) (ops : List Operation) : Activity ω (List (Outcome × Desk) × Desk) := do
  let (outcomes, d) ← d.performAll W raise ops
  let _ ← d.binding.close W
  return (outcomes, d)

/-- Opens a module, performs operations and drops it. -/
def serve (opening : Activity ω (Except Fault Binding)) (started : Timestamp) (steps : List Step)
    (ops : List Operation) : Activity ω (Except Fault (List (Outcome × Desk) × Desk)) := do
  match ← opening with
  | .error f => return .error f
  | .ok b => .ok <$> (start started steps b).finish W raise ops

end

section

variable {ω₁ ω₂ : Type} {R : ω₁ → ω₂ → Prop} {V : World ω₁} {W : World ω₂}
  {raise₁ : ω₁ → ω₁} {raise₂ : ω₂ → ω₂}

theorem perform_matches (h : World.Alike R V W)
    (hraise : ∀ v w, R v w → R (raise₁ v) (raise₂ w)) (d : Desk) (op : Operation) :
    Matches R (d.perform V raise₁ op) (d.perform W raise₂ op) := by
  cases op with
  | execute attached config index =>
    rw [perform, perform]
    cases d.binding.table with
    | error => exact matches_pure _
    | ok context =>
      cases d.steps[index]? with
      | none => exact matches_pure _
      | some step =>
        exact (Step.execute_matches (h.heard attached) config context step).bind
          fun _ => matches_pure _
  | runAll attached config started =>
    rw [perform, perform]
    cases d.binding.table with
    | error => exact matches_pure _
    | ok context =>
      exact (Run.into_matches (h.heard attached) config context d.steps _).bind
        fun _ => matches_pure _
  | runInto attached config =>
    rw [perform, perform]
    cases d.binding.table with
    | error => exact matches_pure _
    | ok context =>
      exact (Run.into_matches (h.heard attached) config context d.steps _).bind
        fun _ => matches_pure _
  | ask c perStep =>
    have hc : c ≠ .bind := by rintro rfl; cases perStep
    rw [perform, perform]
    cases d.binding.table with
    | error => exact matches_pure _
    | ok => exact (call_matches h c hc).bind fun _ => matches_pure _
  | inspect => exact matches_pure _
  | close => exact (Binding.close_matches h d.binding).bind fun _ => matches_pure _
  | raise => exact fun v w hvw => ⟨rfl, rfl, hraise v w hvw⟩

theorem performAll_matches (h : World.Alike R V W)
    (hraise : ∀ v w, R v w → R (raise₁ v) (raise₂ w)) (d : Desk) (ops : List Operation) :
    Matches R (d.performAll V raise₁ ops) (d.performAll W raise₂ ops) := by
  induction ops generalizing d with
  | nil => exact matches_pure _
  | cons op ops ih =>
    unfold performAll
    refine (perform_matches h hraise d op).bind fun ⟨_, d⟩ => (ih d).bind fun _ => ?_
    exact matches_pure _

theorem finish_matches (h : World.Alike R V W)
    (hraise : ∀ v w, R v w → R (raise₁ v) (raise₂ w)) (d : Desk) (ops : List Operation) :
    Matches R (d.finish V raise₁ ops) (d.finish W raise₂ ops) := by
  unfold finish
  refine (performAll_matches h hraise d ops).bind fun ⟨_, d⟩ => ?_
  exact (Binding.close_matches h d.binding).bind fun _ => matches_pure _

end

end Desk

/-! ### Opening -/

/-- Attaches a module, its failure being shown. -/
def Binding.openModule {ω : Type} (W : World ω) : Activity ω (Except Fault Binding) := do
  return (← attach W).mapError AttachError.fault

theorem Binding.openLibrary_eq {ω : Type} (L : Library ω) {files : FileTree} {library : Path}
    (hload : L.load files library = .ok none) :
    openLibrary L files library = openModule (L.world none) := by
  rw [openLibrary, hload, openModule]

theorem Binding.openModule_of_attach {ω : Type} {W : World ω} {w w' : ω}
    {r : Except AttachError Binding} {es : List Event} (h : attach W w = ⟨r, es, w'⟩) :
    openModule W w = ⟨r.mapError AttachError.fault, es, w'⟩ := by
  rw [openModule, bind_of_eq h, pure_behind]

/-- A module that can be bound is set up in at most three calls, and shut down if it has no
context. -/
theorem Binding.attach_eq {ω : Type} {W : World ω} {up : Bool} {context : Handle}
    {w w₁ w₂ w₃ w₄ : ω} (hinit : W.answer .init w = (up, w₁))
    (hcontext : W.answer .baseContext w₁ = (context, w₂)) (hbind : W.answer .bind w₂ = (.ok (), w₃))
    (hshutdown : W.answer .shutdown w₂ = ((), w₄)) :
    attach W w =
      if up then
        if context.isNull then
          ⟨.error .noContext, [.called .init true, .called .baseContext context,
            .called .shutdown ()], w₄⟩
        else ⟨.ok ⟨true, some context⟩, readied context, w₃⟩
      else ⟨.error .notInitialized, [.called .init false], w₁⟩ := by
  rw [attach, bind_of_eq (call_of_answer hinit)]
  cases up with
  | false => rfl
  | true =>
    dsimp only
    rw [if_pos rfl, if_pos rfl, bind_of_eq (call_of_answer hcontext)]
    cases context.isNull with
    | true => rw [if_pos rfl, if_pos rfl, bind_of_eq (close_of_held hshutdown), pure_behind]; rfl
    | false =>
      rw [if_neg Bool.false_ne_true, if_neg Bool.false_ne_true, bind_of_eq (call_of_answer hbind)]
      rfl

namespace Stub.Script

/-- The script with its flag raised one call later, if that is behind the call that binds:
in-process that call is counted too, which a library does not get. -/
def countingBind (s : Script) : Script :=
  { s with raiseAt := s.raiseAt.map fun n => if n < 3 then n else n + 1 }

theorem world_countingBind (s : Script) : s.countingBind.world = s.world := rfl

/-- When a module is ready for use, both forms are as long before the flag is raised. -/
theorem same_readied (s : Script) (e e' : ExportCall) :
    note Call.bind (note Call.baseContext (note Call.init s.countingBind.begin)) =
      (note e' (note e s.begin)).withCalls [.bind, .baseContext, .init] := by
  unfold countingBind begin
  match s.raiseAt with
  | none | some 0 | some 1 | some 2 => rfl
  | some (n + 3) => rfl

variable {s : Script} {L : Library (Playback ExportCall)}

/-- Both forms are set up in the same way, and if they are ready for use, they are as far in the
script. -/
theorem attach_matches (hs : s.bindError = none) (hL : s.PlayedBy L) :
    let far := Binding.attach (L.world none) s.begin
    let near := Binding.attach s.countingBind.world s.countingBind.begin
    far.Matches SameCalls near ∧ ∀ b, far.value = .ok b → Crossed far.state near.state := by
  obtain ⟨e₁, hread₁, hcarried₁, hinit⟩ := hL.exists_export (c := .init) nofun s.begin
  obtain ⟨e₂, hread₂, hcarried₂, hcontext⟩ :=
    hL.exists_export (c := .baseContext) nofun (note e₁ s.begin)
  obtain ⟨e₃, hread₃, hcarried₃, hshutdown⟩ :=
    hL.exists_export (c := .shutdown) nofun (note e₂ (note e₁ s.begin))
  have hbind : ∀ q : Playback Call, s.respond .bind q = (.ok (), q) := by
    intro q
    rw [respond, hs]
  have hfar := Binding.attach_eq (W := L.world none) hinit hcontext rfl hshutdown
  have hnear := Binding.attach_eq (W := s.world) (w := s.countingBind.begin) rfl rfl (hbind _) rfl
  have hstart : SameCalls s.begin s.countingBind.begin := ⟨rfl, nofun⟩
  have hup := hstart.note hread₁ nofun hcarried₁
  have hgiven := hup.note hread₂ nofun hcarried₂
  rw [world_countingBind, hfar, hnear]
  cases s.init != 0 with
  | false => exact ⟨⟨rfl, rfl, hup⟩, nofun⟩
  | true =>
    cases s.context.isNull with
    | true => exact ⟨⟨rfl, rfl, hgiven.note hread₃ nofun hcarried₃⟩, nofun⟩
    | false =>
      have hready : Crossed (note e₂ (note e₁ s.begin)) _ :=
        ⟨hgiven.note_bind, s.same_readied e₁ e₂⟩
      exact ⟨⟨rfl, rfl, hready.toSameCalls⟩, fun _ _ => hready⟩

/-- Whatever is done by hand with a library that plays a script without a failure to bind comes to
the same as done with the script in-process: what the operations give, the steps and the counts,
the sleeps and the answers. The library was told the same, all texts being handed over unchanged. -/
theorem serve_library_matches (hs : s.bindError = none) (hL : s.PlayedBy L) {files : FileTree}
    {library : Path} (hload : L.load files library = .ok none) (started : Timestamp)
    (steps : List Step) (ops : List Operation) :
    (Desk.serve (L.world none) Playback.raise (Binding.openLibrary L files library) started steps
      ops s.begin).Matches SameCalls
    (Desk.serve s.countingBind.world Playback.raise (Binding.openModule s.countingBind.world)
      started steps ops s.countingBind.begin) := by
  obtain ⟨⟨value, es, p⟩, hfar⟩ : ∃ r, Binding.attach (L.world none) s.begin = r := ⟨_, rfl⟩
  obtain ⟨⟨value', es', q⟩, hnear⟩ :
      ∃ r, Binding.attach s.countingBind.world s.countingBind.begin = r := ⟨_, rfl⟩
  have hopened := attach_matches hs hL
  rw [hfar, hnear] at hopened
  obtain ⟨⟨rfl, rfl, hsame⟩, hready⟩ := hopened
  rw [Binding.openLibrary_eq L hload, Desk.serve, Desk.serve,
    bind_of_eq (Binding.openModule_of_attach hfar), bind_of_eq (Binding.openModule_of_attach hnear)]
  cases value with
  | error => exact ⟨rfl, rfl, hsame⟩
  | ok b =>
    have hrest := Desk.finish_matches (world_alike hL) (fun _ _ h => h.raise)
      (.start started steps b) ops p q (hready b rfl)
    exact ⟨congrArg Except.ok hrest.value, congrArg _ hrest.events, hrest.state.toSameCalls⟩

/-- A name with a character of two units and a zero. The flag is raised by the fifth call that the
library gets, which is the sixth in-process, and only the first of two steps is run. -/
theorem serve_library_matches_wide_name :
    let s : Script := { raiseAt := some 5 }
    let files : FileTree := ⟨[(["w", "stub.so"], .file (.library none))], ["w"]⟩
    let step : Step := ⟨"😀\x00", "A", "I", "f", none, 0, false, .zero, 0⟩
    let ops : List Operation :=
      [.ask (.resolve "😀\x00") rfl, .runInto true {}, .close, .execute true {} 0]
    let far := Desk.serve (s.library.world none) Playback.raise
      (Binding.openLibrary s.library files ⟨"./stub.so"⟩) ⟨0, 0, 0⟩ [step, step] ops s.begin
    let name : Buffer := ⟨[0xD83D, 0xDE00, 0, 0], 4⟩
    s.bindError = none ∧ s.PlayedBy s.library ∧ s.library.load files ⟨"./stub.so"⟩ = .ok none ∧
      far.Matches SameCalls (Desk.serve s.countingBind.world Playback.raise
        (Binding.openModule s.countingBind.world) ⟨0, 0, 0⟩ [step, step] ops s.countingBind.begin) ∧
      far.state.calls.reverse = [.init, .baseObject, .testId name, .testId name,
        .getClass ⟨[0x41, 0], 2⟩ ⟨4096⟩, .canExecute ⟨8192⟩ 0, .execute ⟨8192⟩ 0 ⟨[0], 1⟩,
        .submitClass ⟨[0x41, 0], 2⟩ ⟨8192⟩ ⟨4096⟩, .shutdown] := by
  intro s files step ops far name
  have hplayed := s.playedBy_library
  have hlibrary : files.file? ⟨"./stub.so"⟩ = some (["w", "stub.so"], .library none) :=
    FileTree.file?_of_leads ["w"] [".", "stub.so"] (by decide +kernel)
      (.idle (.inr rfl) (.file (by decide +kernel) rfl)) rfl
  have hload : s.library.load files ⟨"./stub.so"⟩ = .ok none :=
    Library.load_of_plain rfl hlibrary
  refine ⟨rfl, hplayed, hload,
    serve_library_matches rfl hplayed hload ⟨0, 0, 0⟩ [step, step] ops, ?_⟩
  unfold far
  rw [Binding.openLibrary_eq s.library hload]
  decide +kernel

end Stub.Script

end StepRunner
