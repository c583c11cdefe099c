import StepRunner.Proofs.Run.Course
import StepRunner.Proofs.Session.History

/-!
# Uses of a binding

A binding has a table exactly as long as its module is held (`Binding.Sound`). Uses keep that, only
closing ends it, and the calls on the way are for the sake of steps, with one `shutdown` behind them
if the module was held and is not any more (`Moves`).
-/

namespace StepRunner

open Stub (Handle)
open Activity (bind_of_eq pure_behind)
open Step (performed_of_execute)
open Run (into_course)

variable {ω : Type} {W : World ω}

/-! ### From one binding to the next -/

/-- The events between two moments at which a module is held or is not. -/
inductive Trail : Bool → List Event → Bool → Prop where
  | idle : Trail false [] false
  | kept {es : List Event} : PerStep es → Trail true es true
  | closed {es : List Event} : PerStep es → Trail true (es ++ [.called .shutdown ()]) false

theorem Trail.trans {a b c : Bool} {es fs : List Event} (h : Trail a es b) (h' : Trail b fs c) :
    Trail a (es ++ fs) c := by
  cases h with
  | idle => exact h'
  | kept hes =>
    cases h' with
    | kept hfs => exact .kept (perStep_append.mpr ⟨hes, hfs⟩)
    | closed hfs =>
      rw [← List.append_assoc]
      exact .closed (perStep_append.mpr ⟨hes, hfs⟩)
  | closed hes =>
    cases h'
    rw [List.append_nil]
    exact .closed hes

/-- There is a table as long as the module is held. -/
def Binding.Sound (b : Binding) : Prop := b.held = b.context.isSome

theorem Binding.Sound.table_ok_iff {b : Binding} (h : b.Sound) :
    (∃ context, b.table = .ok context) ↔ b.held = true := by
  rw [show b.held = b.context.isSome from h, table]
  cases b.context <;> simp

/-- What using a binding comes to; `shut` tells whether it was closed. -/
structure Moves (b : Binding) (shut : Bool) (b' : Binding) (es : List Event) : Prop where
  sound : b'.Sound
  held : b'.held = (b.held && !shut)
  trail : Trail b.held es b'.held

theorem Moves.refl {b : Binding} (hb : b.Sound) : Moves b false b [] where
  sound := hb
  held := by simp
  trail := by
    cases b.held with
    | true => exact .kept perStep_nil
    | false => exact .idle

theorem Moves.trans {b b' b'' : Binding} {p q : Bool} {es fs : List Event} (h : Moves b p b' es)
    (h' : Moves b' q b'' fs) : Moves b (p || q) b'' (es ++ fs) where
  sound := h'.sound
  held := by rw [h'.held, h.held, Bool.not_or, Bool.and_assoc]
  trail := h.trail.trans h'.trail

namespace Binding

/-- What is executed with the table of a binding leaves the binding as it is. -/
theorem moves_of_table {b : Binding} {context : Handle} {es : List Event} (hb : b.Sound)
    (ht : b.table = .ok context) (hes : PerStep es) : Moves b false b es where
  sound := hb
  held := by simp
  trail := by
    rw [hb.table_ok_iff.mp ⟨context, ht⟩]
    exact .kept hes

theorem close_moves (b : Binding) (w : ω) :
    Moves b true (b.close W w).value (b.close W w).events := by
  obtain ⟨held, context⟩ := b
  cases held with
  | true =>
    have htrail : Trail true ([] ++ [.called .shutdown ()]) false := .closed perStep_nil
    exact ⟨rfl, rfl, htrail⟩
  | false => exact ⟨rfl, rfl, .idle⟩

theorem close_trail (b : Binding) (w : ω) : Trail b.held (b.close W w).events false := by
  have h := b.close_moves (W := W) w
  have hheld : (b.close W w).value.held = false := by simpa using h.held
  rw [← hheld]
  exact h.trail

theorem use_moves {b : Binding} (hb : b.Sound) (u : Use ω) (w : ω) :
    Moves b u.isClose (b.use W u w).value (b.use W u w).events := by
  cases u with
  | lookup | meanwhile => exact .refl hb
  | close => exact b.close_moves w
  | execute attached config step =>
    rw [use]
    cases ht : b.table with
    | error => exact .refl hb
    | ok context =>
      obtain ⟨⟨⟨outcome, done⟩, es, w₁⟩, hrun⟩ :
          ∃ r, step.execute (W.heard attached) config context w = r := ⟨_, rfl⟩
      obtain ⟨_, _, hp, _⟩ := performed_of_execute hrun
      dsimp only
      rw [bind_of_eq hrun, pure_behind]
      exact moves_of_table hb ht hp.perStep
  | run attached config steps summary =>
    rw [use]
    cases ht : b.table with
    | error => exact .refl hb
    | ok context =>
      have hcourse := into_course (W := W.heard attached) config context steps summary w
      exact moves_of_table hb ht (by simpa using hcourse.perStep)

theorem useAll_moves {b : Binding} (hb : b.Sound) (uses : List (Use ω)) (w : ω) :
    Moves b (uses.any Use.isClose) (b.useAll W uses w).value (b.useAll W uses w).events := by
  induction uses generalizing b w with
  | nil => exact .refl hb
  | cons u us ih =>
    have hu := use_moves (W := W) hb u w
    exact hu.trans (ih hu.sound _)

end Binding

namespace Session

/-- A run leaves the binding of the session as it is. -/
theorem run_moves {s : Session} (hs : s.binding.Sound) (w : ω) :
    Moves s.binding false (s.run W w).value.2.binding (s.run W w).events := by
  rw [run]
  cases ht : s.binding.table with
  | error => exact .refl hs
  | ok context =>
    have hcourse := into_course (W := W) s.config context s.steps s.summary w
    exact Binding.moves_of_table hs ht (by simpa using hcourse.perStep)

theorem writeReport_session (p : Path) (x : Session × FileTree) :
    ((suite W).writeReport p x).2.1 = x.1 := by
  dsimp only [suite]
  split <;> rfl

theorem runAndReport_moves {s : Session} (hs : s.binding.Sound) (files : FileTree) (report : Path)
    (w : ω) :
    Moves s.binding false
      ((suite W).runAndReport report (s, files) w).value.2.1.binding
      ((suite W).runAndReport report (s, files) w).events := by
  have hmoves := run_moves (W := W) hs w
  obtain ⟨⟨⟨outcome, s'⟩, es, w₁⟩, hrun⟩ : ∃ r, s.run W w = r := ⟨_, rfl⟩
  have hsuite : (suite W).run (s, files) w = ⟨(outcome, (s', files)), es, w₁⟩ := by
    dsimp only [suite]
    rw [bind_of_eq hrun, pure_behind]
  rw [hrun] at hmoves
  rw [Suite.runAndReport, bind_of_eq hsuite]
  dsimp only
  split
  · rw [pure_behind]
    exact hmoves
  · rw [pure_behind, writeReport_session]
    exact hmoves

theorem use_moves {s : Session} (hs : s.binding.Sound) (u : Use ω) (w : ω) :
    Moves s.binding u.isClose (s.use W u w).value.binding (s.use W u w).events := by
  cases u with
  | inspect | meanwhile => exact .refl hs
  | run attached => exact run_moves hs w
  | runAndReport attached files report => exact runAndReport_moves hs files report w
  | close =>
    have hclose := s.binding.close_moves (W := W) w
    simpa [use, close, Use.isClose] using hclose

theorem useAll_moves {s : Session} (hs : s.binding.Sound) (uses : List (Use ω)) (w : ω) :
    Moves s.binding (uses.any Use.isClose) (s.useAll W uses w).value.binding
      (s.useAll W uses w).events := by
  induction uses generalizing s w with
  | nil => exact .refl hs
  | cons u us ih =>
    have hu := use_moves (W := W) hs u w
    exact hu.trans (ih hu.sound _)

end Session

end StepRunner
