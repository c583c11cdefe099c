import StepRunner.Proofs.Session.Moves
import StepRunner.Stub.Scripted

/-!
# The life of a stub module

However a module is used, its events have one of few forms (`Lived`): it cannot be loaded, cannot be
initialized, cannot be made ready and is shut down, or is made ready, used and shut down.
-/

namespace StepRunner

open Stub (Call Handle Library)
open Activity (bind_of_eq call_of_answer pure_behind)

variable {ω : Type} {W : World ω}

/-! ### Opening -/

/-- The calls that make a module ready for use. -/
def readied (context : Handle) : List Event :=
  [.called .init true, .called .baseContext context, .called .bind (.ok ())]

/-- The events of whole histories. -/
inductive Lived : List Event → Prop where
  | unloaded : Lived []
  | notInitialized : Lived [.called .init false]
  | noContext {context : Handle} : context.isNull = true →
      Lived [.called .init true, .called .baseContext context, .called .shutdown ()]
  | unbound {context : Handle} {e : Stub.BindError} : context.isNull = false →
      Lived [.called .init true, .called .baseContext context, .called .bind (.error e),
        .called .shutdown ()]
  | used {context : Handle} {es : List Event} : context.isNull = false → PerStep es →
      Lived (readied context ++ es ++ [.called .shutdown ()])

/-- The ways of opening a module. -/
inductive Opened {ε : Type} : Except ε Binding → List Event → Prop where
  | failed {e : ε} {es : List Event} : Lived es → Opened (.error e) es
  | ready {context : Handle} : context.isNull = false →
      Opened (.ok ⟨true, some context⟩) (readied context)

namespace Binding

theorem close_of_held {context : Option Handle} {w w₁ : ω} (h : W.answer .shutdown w = ((), w₁)) :
    close W ⟨true, context⟩ w = ⟨⟨false, none⟩, [.called .shutdown ()], w₁⟩ := by
  rw [close, if_pos rfl, bind_of_eq (call_of_answer h), pure_behind]

theorem attach_opened (w : ω) : Opened (attach W w).value (attach W w).events := by
  obtain ⟨⟨up, w₁⟩, hinit⟩ : ∃ p, W.answer .init w = p := ⟨_, rfl⟩
  obtain ⟨⟨context, w₂⟩, hcontext⟩ : ∃ p, W.answer .baseContext w₁ = p := ⟨_, rfl⟩
  obtain ⟨⟨bound, w₃⟩, hbind⟩ : ∃ p, W.answer .bind w₂ = p := ⟨_, rfl⟩
  rw [attach, bind_of_eq (call_of_answer hinit)]
  cases up with
  | false => exact .failed .notInitialized
  | true =>
    dsimp only
    rw [if_pos rfl, bind_of_eq (call_of_answer hcontext)]
    cases hnull : context.isNull with
    | true =>
      rw [if_pos rfl, bind_of_eq (close_of_held (Prod.ext rfl rfl)), pure_behind]
      exact .failed (.noContext hnull)
    | false =>
      rw [if_neg Bool.false_ne_true, bind_of_eq (call_of_answer hbind)]
      match bound with
      | .error e =>
        dsimp only
        rw [bind_of_eq (close_of_held (Prod.ext rfl rfl)), pure_behind]
        exact .failed (.unbound hnull)
      | .ok () => exact .ready hnull

theorem openLibrary_opened (L : Library ω) (files : FileTree) (library : Path) (w : ω) :
    Opened (openLibrary L files library w).value (openLibrary L files library w).events := by
  rw [openLibrary]
  cases L.load files library with
  | error => exact .failed .unloaded
  | ok lacks =>
    have hopened := attach_opened (W := L.world lacks) w
    obtain ⟨⟨b, es, w₁⟩, hattach⟩ : ∃ r, attach (L.world lacks) w = r := ⟨_, rfl⟩
    rw [hattach] at hopened
    dsimp only
    rw [bind_of_eq hattach, pure_behind]
    cases hopened with
    | failed h => exact .failed h
    | ready h => exact .ready h

end Binding

/-! ### Whole histories -/

/-- What dropping a binding in the end comes to; `last` is the binding as it was then. -/
structure Dropped (b : Binding) (shut : Bool) (last : Option Binding) (es : List Event) :
    Prop where
  sound : ∀ b' ∈ last, b'.Sound
  held : ∀ b' ∈ last, b'.held = (b.held && !shut)
  trail : Trail b.held es false

theorem Session.finish_dropped {s : Session} (hs : s.binding.Sound) (uses : List (Use ω)) (w : ω) :
    Dropped s.binding (uses.any Use.isClose) (some (s.finish W uses w).value)
      (s.finish W uses w).events := by
  have hmoves := useAll_moves (W := W) hs uses w
  obtain ⟨⟨s', es, w₁⟩, huses⟩ : ∃ r, s.useAll W uses w = r := ⟨_, rfl⟩
  have htrail := s'.binding.close_trail (W := W) w₁
  obtain ⟨⟨b, fs, w₂⟩, hclose⟩ : ∃ r, s'.binding.close W w₁ = r := ⟨_, rfl⟩
  rw [huses] at hmoves
  rw [hclose] at htrail
  rw [finish, bind_of_eq huses, bind_of_eq hclose, pure_behind]
  exact ⟨by rintro _ ⟨⟩; exact hmoves.sound, by rintro _ ⟨⟩; exact hmoves.held,
    hmoves.trail.trans htrail⟩

/-- A session comes about over the binding as it is, or the binding is closed. -/
theorem Session.withBinding_cases (files : FileTree) (config : Config) (started : Timestamp)
    (runFile : Path) (b : Binding) (w : ω) :
    (∃ s : Session, s.binding = b ∧
      withBinding W files config started runFile b w = ⟨.ok s, [], w⟩) ∨
    ∃ f, withBinding W files config started runFile b w =
      ⟨.error f, (b.close W w).events, (b.close W w).state⟩ := by
  obtain ⟨steps, hsteps⟩ : ∃ x : Except Fault (List Step),
      (do config.validate.mapError ConfigError.fault; compile files config runFile) = x := ⟨_, rfl⟩
  rw [withBinding, hsteps]
  cases steps with
  | error f =>
    obtain ⟨r, hclose⟩ : ∃ r, b.close W w = r := ⟨_, rfl⟩
    refine .inr ⟨f, ?_⟩
    rw [hclose]
    show (b.close W >>= fun _ => pure (Except.error f)) w = _
    rw [bind_of_eq hclose, pure_behind]
  | ok steps => exact .inl ⟨_, rfl, rfl⟩

theorem Binding.meet_dropped {b : Binding} (hb : b.Sound) (fate : Fate ω) (w : ω) :
    Dropped b fate.closes (b.meet W fate w).value (b.meet W fate w).events := by
  cases fate with
  | dropped =>
    have htrail := b.close_trail (W := W) w
    obtain ⟨⟨b', fs, w₂⟩, hclose⟩ : ∃ r, b.close W w = r := ⟨_, rfl⟩
    rw [hclose] at htrail
    rw [meet, bind_of_eq hclose, pure_behind]
    exact ⟨by rintro _ ⟨⟩; exact hb, by rintro _ ⟨⟩; simp [Fate.closes], htrail⟩
  | session files config started runFile uses =>
    rw [meet]
    obtain ⟨s, rfl, hsession⟩ | ⟨f, hsession⟩ :=
      Session.withBinding_cases (W := W) files config started runFile b w
    · rw [bind_of_eq hsession]
      exact Session.finish_dropped hb uses w
    · rw [bind_of_eq hsession, pure_behind]
      exact ⟨nofun, nofun, b.close_trail w⟩

/-- What a whole history comes to; `last` is the binding as it was when it was dropped. -/
structure Played (shut : Bool) (last : Option Binding) (es : List Event) : Prop where
  sound : ∀ b ∈ last, b.Sound
  held : ∀ b ∈ last, b.held = !shut
  lived : Lived es

theorem Trail.lived {context : Handle} {es : List Event} (h : Trail true es false)
    (hnull : context.isNull = false) : Lived (readied context ++ es) := by
  cases h with
  | closed hes =>
    rw [← List.append_assoc]
    exact .used hnull hes

theorem Binding.live_played {ε : Type} {opening : Activity ω (Except ε Binding)} {w : ω}
    (h : Opened (opening w).value (opening w).events) (uses : List (Use ω)) (fate : Fate ω) :
    Played (uses.any Use.isClose || fate.closes) (live W opening uses fate w).value
      (live W opening uses fate w).events := by
  obtain ⟨⟨b, es, w₁⟩, hopen⟩ : ∃ r, opening w = r := ⟨_, rfl⟩
  rw [hopen] at h
  rw [live, bind_of_eq hopen]
  cases h with
  | failed hlived =>
    rw [pure_behind]
    exact ⟨nofun, nofun, hlived⟩
  | @ready context hnull =>
    have hmoves := useAll_moves (W := W) (b := ⟨true, some context⟩) rfl uses w₁
    obtain ⟨⟨b', fs, w₂⟩, huses⟩ : ∃ r, useAll W ⟨true, some context⟩ uses w₁ = r := ⟨_, rfl⟩
    rw [huses] at hmoves
    dsimp only
    rw [bind_of_eq huses]
    have hdropped := meet_dropped (W := W) hmoves.sound fate w₂
    refine ⟨hdropped.sound, fun b'' hb'' => ?_, (hmoves.trail.trans hdropped.trail).lived hnull⟩
    rw [hdropped.held b'' hb'', hmoves.held, Bool.not_or, Bool.true_and]

/-- To open a session is to load a library for it, if the run-file exists. -/
theorem History.play_session (L : Library ω) (files : FileTree) (config : Config)
    (started : Timestamp) (runFile library : Path) (uses : List (Session.Use ω)) (w : ω) :
    (session L files config started runFile library uses).play w =
      if files.isFile runFile then
        (loaded L files library [] (.session files config started runFile uses)).play w
      else ⟨none, [], w⟩ := by
  rw [play, play, Session.openLibrary]
  cases files.isFile runFile with
  | false => rfl
  | true =>
    rw [if_pos rfl, if_pos rfl, bind_assoc, Binding.live]
    obtain ⟨⟨b, es, w₁⟩, hopen⟩ : ∃ r, Binding.openLibrary L files library w = r := ⟨_, rfl⟩
    rw [bind_of_eq hopen, bind_of_eq hopen]
    cases b with
    | error f => rfl
    | ok b => rfl

theorem History.play_played (h : History ω) (w : ω) :
    Played h.closes (h.play w).value (h.play w).events := by
  cases h with
  | attached W uses fate => exact Binding.live_played (Binding.attach_opened w) uses fate
  | loaded L files library uses fate =>
    exact Binding.live_played (Binding.openLibrary_opened L files library w) uses fate
  | session L files config started runFile library uses =>
    rw [play_session]
    split
    · exact Binding.live_played (Binding.openLibrary_opened L files library w) []
        (.session files config started runFile uses)
    · exact ⟨nofun, nofun, .unloaded⟩

/-! ### Order of the calls -/

/-- What holds of the calls to a module that is used in any way and dropped. -/
structure Orderly (es : List Event) : Prop where
  shutDown : .called .init true ∈ es → (callsOf es).count .shutdown = 1
  notShutDown : .called .init true ∉ es → (callsOf es).count .shutdown = 0
  nothingBehind : ∀ before behind, es = before ++ .called .shutdown () :: behind →
    callsOf behind = []
  readyBefore : ∀ before c a behind, es = before ++ .called c a :: behind → c.isPerStep = true →
    ∃ context between, context.isNull = false ∧ before = readied context ++ between

section

variable {front : List Event} (hfront : .shutdown ∉ callsOf front)

include hfront

theorem count_shutdown : (callsOf (front ++ [.called .shutdown ()])).count .shutdown = 1 := by
  rw [callsOf_append, List.count_append, List.count_eq_zero.mpr hfront]
  rfl

theorem eq_nil_of_shutdown {before behind : List Event}
    (h : front ++ [.called .shutdown ()] = before ++ .called .shutdown () :: behind) :
    behind = [] := by
  induction front generalizing before with
  | nil =>
    cases before with
    | nil => simpa using h.symm
    | cons => simp at h
  | cons e front ih =>
    cases before with
    | nil =>
      obtain ⟨rfl, -⟩ := List.cons.inj h
      exact absurd List.mem_cons_self hfront
    | cons e' before =>
      have htail : .shutdown ∉ callsOf front := fun hmem => by
        rw [← List.singleton_append, callsOf_append] at hfront
        exact hfront (List.mem_append_right _ hmem)
      exact ih htail (List.cons.inj h).2

/-- A module that cannot be made ready is shut down. -/
theorem orderly_failed (hinit : .called .init true ∈ front)
    (hcalls : ∀ c ∈ callsOf front, c.isPerStep = false) :
    Orderly (front ++ [.called .shutdown ()]) where
  shutDown _ := count_shutdown hfront
  notShutDown h := absurd (List.mem_append_left _ hinit) h
  nothingBehind _ _ h := by rw [eq_nil_of_shutdown hfront h, callsOf_nil]
  readyBefore _ c _ _ h hstep := by
    have hc := mem_callsOf h
    rw [callsOf_append, List.mem_append] at hc
    obtain hc | hc := hc
    · rw [hcalls c hc] at hstep
      cases hstep
    · obtain rfl := List.mem_singleton.mp hc
      cases hstep

end

/-- Between being made ready and being shut down a module is called for steps alone. -/
theorem orderly_used {context : Handle} {es : List Event} (hnull : context.isNull = false)
    (hes : PerStep es) : Orderly (readied context ++ es ++ [.called .shutdown ()]) := by
  have hfront : .shutdown ∉ callsOf (readied context ++ es) := by
    rw [callsOf_append, List.mem_append]
    rintro (hmem | hmem)
    · simp [readied, callsOf, Event.call?] at hmem
    · exact absurd (hes _ hmem) (by decide)
  refine ⟨fun _ => count_shutdown hfront, fun h => absurd (by simp [readied]) h,
    fun _ _ h => by rw [eq_nil_of_shutdown hfront h, callsOf_nil], ?_⟩
  -- The three calls that make it ready are not for a step, so they all stand before one that is.
  intro before c a behind h hstep
  simp only [readied, List.cons_append, List.nil_append] at h
  rcases before with _ | ⟨_, _ | ⟨_, _ | ⟨_, between⟩⟩⟩
  · obtain ⟨⟨⟩, -⟩ := List.cons.inj h
    cases hstep
  · obtain ⟨-, h⟩ := List.cons.inj h
    obtain ⟨⟨⟩, -⟩ := List.cons.inj h
    cases hstep
  · obtain ⟨-, h⟩ := List.cons.inj h
    obtain ⟨-, h⟩ := List.cons.inj h
    obtain ⟨⟨⟩, -⟩ := List.cons.inj h
    cases hstep
  · simp only [List.cons_append, List.cons.injEq] at h
    obtain ⟨rfl, rfl, rfl, -⟩ := h
    exact ⟨context, between, hnull, rfl⟩

theorem Lived.orderly {es : List Event} (h : Lived es) : Orderly es := by
  cases h with
  | unloaded => exact ⟨nofun, fun _ => rfl, by simp, by simp⟩
  | notInitialized =>
    refine ⟨by simp, fun _ => rfl, fun _ _ h => ?_, fun _ c _ _ h hstep => ?_⟩
    · exact absurd (mem_callsOf h) (by decide)
    · obtain rfl := List.mem_singleton.mp (mem_callsOf h)
      cases hstep
  | @noContext context _ =>
    have hfailed : Orderly ([.called .init true, .called .baseContext context] ++
        [.called .shutdown ()]) :=
      orderly_failed (by simp [callsOf, Event.call?]) List.mem_cons_self
        (by simp [callsOf, Event.call?, Call.isPerStep])
    exact hfailed
  | @unbound context e _ =>
    have hfailed : Orderly ([.called .init true, .called .baseContext context,
        .called .bind (.error e)] ++ [.called .shutdown ()]) :=
      orderly_failed (by simp [callsOf, Event.call?]) List.mem_cons_self
        (by simp [callsOf, Event.call?, Call.isPerStep])
    exact hfailed
  | used hnull hes => exact orderly_used hnull hes

/-- The life of a stub module. However it is opened, used and dropped, its calls are in order, and
its binding is open and has a table as long as it has not been closed. A session without a run-file
calls nothing. -/
theorem lifecycle :
    (∀ (h : History ω) (w : ω), Orderly (h.play w).events ∧
      ∀ b ∈ (h.play w).value, (b.isOpen = true ↔ h.closes = false) ∧
        ((∃ context, b.table = .ok context) ↔ h.closes = false)) ∧
    ∀ (L : Library ω) (files : FileTree) (config : Config) (started : Timestamp)
      (runFile library : Path) (w : ω), files.isFile runFile = false →
      Session.openLibrary L files config started runFile library w =
        ⟨.error (RunFile.ParseError.missing runFile).fault, [], w⟩ := by
  refine ⟨fun h w => ?_, fun L files config started runFile library w hmissing => ?_⟩
  · have hplayed := h.play_played w
    refine ⟨hplayed.lived.orderly, fun b hb => ?_⟩
    have hheld : b.held = true ↔ h.closes = false := by simp [hplayed.held b hb]
    exact ⟨hheld, (hplayed.sound b hb).table_ok_iff.trans hheld⟩
  · rw [Session.openLibrary, hmissing, if_neg Bool.false_ne_true, Activity.pure_apply]

/-- A step is executed and the module closed twice; then a session is asked for without a
run-file. -/
theorem lifecycle_closed_twice :
    let script : Stub.Script := {}
    let step : Step := ⟨"1__A__I__f", "A", "I", "f", none, 0, false, .zero, 0⟩
    let h : History (Stub.Playback Stub.Call) :=
      .attached script.world [.execute true {} step, .close, .close] .dropped
    ((callsOf (h.play script.begin).events).count .shutdown = 1 ∧
      ∃ b ∈ (h.play script.begin).value, ¬ b.isOpen = true) ∧
    (Session.openLibrary script.library ⟨[], []⟩ {} ⟨0, 0, 0⟩ ⟨"a.run"⟩ ⟨"stub.so"⟩
      script.begin).events = [] := by
  intro script step h
  have hfile : FileTree.isFile ⟨[], []⟩ ⟨"a.run"⟩ = false := by
    cases hx : FileTree.file? ⟨[], []⟩ ⟨"a.run"⟩ with
    | none => rw [FileTree.isFile, hx]; rfl
    | some x => exact absurd (FileTree.mem_entries_of_file? hx) List.not_mem_nil
  have hmissing := lifecycle.2 script.library ⟨[], []⟩ {} ⟨0, 0, 0⟩ ⟨"a.run"⟩ ⟨"stub.so"⟩
    script.begin hfile
  obtain ⟨horderly, hopen⟩ := lifecycle.1 h script.begin
  obtain ⟨b, hb⟩ : ∃ b, (h.play script.begin).value = some b := ⟨_, rfl⟩
  have hclosed : h.closes = true := rfl
  refine ⟨⟨horderly.shutDown List.mem_cons_self, b, hb, ?_⟩, by rw [hmissing]⟩
  rw [(hopen b hb).1, hclosed]
  decide

end StepRunner
