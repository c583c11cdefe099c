import StepRunner.Proofs.Run.Simulation
import StepRunner.Proofs.Text.Units
import StepRunner.Stub.Scripted

/-!
# Crossing over to a library

A text is not changed by the way it takes to a library (`Buffer.carries_ofText`), so a library that
reads its buffers gets the calls of a run as they were made (`ExportCall.read`). A library that
plays a script is told the same as the script in-process, and answers the same
(`Script.world_alike`).
-/

namespace StepRunner.Stub

/-! ### Buffers -/

/-- The buffer hands over the text `t`: its units with a zero behind them, and their number. -/
structure Buffer.Carries (b : Buffer) (t : String) : Prop where
  units : b.units = Text.encodeUnits t.toList ++ [0]
  /-- Lengths beyond 32 bits cannot be told. -/
  length : (Text.encodeUnits t.toList).length < maxLength → b.length = b.units.length
  text : b.text = t

theorem Buffer.text_ofText (t : String) : (Buffer.ofText t).text = t := by
  unfold text ofText
  dsimp only
  rw [List.dropLast_concat, Text.decodeUnits_encodeUnits, String.ofList_toList]

theorem Buffer.carries_ofText (t : String) : (Buffer.ofText t).Carries t where
  units := rfl
  length h := by
    have hlen : (Text.encodeUnits t.toList ++ [0]).length ≤ maxLength := by
      rw [List.length_append, List.length_singleton]
      omega
    show ((min (Text.encodeUnits t.toList ++ [0]).length maxLength : Nat) : Int) = _
    rw [Nat.min_eq_left hlen]
    rfl
  text := text_ofText t

/-- Characters of two units and of one, the zero among them. -/
example : Buffer.ofText "a😀\x00" = ⟨[0x61, 0xD83D, 0xDE00, 0, 0], 5⟩ := by decide

namespace ExportCall

/-- The call that an exported function got, its buffers being read. -/
def read : ExportCall → Call
  | init => .init
  | baseObject => .baseContext
  | testId name => .resolve name.text
  | getClass cls context => .getHandler cls.text context
  | canExecute handler id => .canExecute handler id
  | execute handler id config => .execute handler id config.text
  | threadedExecute handler id config => .start handler id config.text
  | threadedResult => .poll
  | submitClass cls handler context => .release cls.text handler context
  | shutdown => .shutdown

/-- The answer as the caller understands it: any byte but zero is true, and a result counts only if
it is ready. -/
def readAnswer : (e : ExportCall) → e.Answer → e.read.Answer
  | init, a => a != 0
  | baseObject, a => a
  | testId _, a => a
  | getClass _ _, a => a
  | canExecute _ _, a => a != 0
  | execute _ _ _, a => a
  | threadedExecute _ _ _, a => a
  | threadedResult, a => if a.1 != 0 then some a.2 else none
  | submitClass _ _ _, a => a
  | shutdown, a => a

def buffers : ExportCall → List Buffer
  | testId b | getClass b _ | execute _ _ b | threadedExecute _ _ b | submitClass b _ _ => [b]
  | init | baseObject | canExecute _ _ | threadedResult | shutdown => []

/-- All buffers of the call hand over some text. -/
def Carried (e : ExportCall) : Prop := ∀ b ∈ e.buffers, ∃ t, b.Carries t

theorem carried_of_buffers {e : ExportCall} {t : String} (h : e.buffers = [.ofText t]) :
    e.Carried := by
  intro b hb
  rw [h, List.mem_singleton] at hb
  exact ⟨t, hb ▸ Buffer.carries_ofText t⟩

theorem carried_of_no_buffers {e : ExportCall} (h : e.buffers = []) : e.Carried := by
  intro b hb
  rw [h] at hb
  cases hb

end ExportCall

/-! ### Playing one script in two forms -/

namespace Playback

variable {κ κ' : Type}

/-- The same playback with other calls on record. -/
def withCalls (p : Playback κ) (calls : List κ') : Playback κ' :=
  ⟨calls, p.untilRaise, p.current, p.assigned, p.results, p.pending, p.now, p.raised⟩

def raise (p : Playback κ) : Playback κ := { p with raised := true }

end Playback

namespace Script

section

variable {κ κ' : Type} (s : Script)

theorem note_withCalls (e : κ) (c : κ') (p : Playback κ) (calls : List κ') :
    (note e p).withCalls (c :: calls) = note c (p.withCalls calls) := rfl

theorem idOf_withCalls (name : String) (p : Playback κ) (calls : List κ') :
    s.idOf name (p.withCalls calls) =
      ((s.idOf name p).1, (s.idOf name p).2.withCalls calls) := by
  unfold idOf Playback.withCalls
  dsimp only
  split <;> rfl

theorem takeResult_withCalls (p : Playback κ) (calls : List κ') :
    takeResult (p.withCalls calls) = ((takeResult p).1, (takeResult p).2.withCalls calls) := by
  unfold takeResult Playback.withCalls
  dsimp only
  split <;> rfl

theorem startTest_withCalls (p : Playback κ) (calls : List κ') :
    s.startTest (p.withCalls calls) = (s.startTest p).withCalls calls := by
  unfold startTest
  rw [takeResult_withCalls]
  rfl

theorem poll_withCalls (p : Playback κ) (calls : List κ') :
    poll (p.withCalls calls) = ((poll p).1, (poll p).2.withCalls calls) := by
  unfold poll Playback.withCalls
  dsimp only
  split <;> rfl

/-- An answer does not depend on the calls on record, and leaves them as they are. -/
theorem respond_withCalls (c : Call) (p : Playback κ) (calls : List κ') :
    s.respond c (p.withCalls calls) =
      ((s.respond c p).1, (s.respond c p).2.withCalls calls) := by
  cases c with
  | resolve name => exact s.idOf_withCalls name p calls
  | execute => exact takeResult_withCalls p calls
  | start => exact congrArg (s.token, ·) (s.startTest_withCalls p calls)
  | poll => exact poll_withCalls p calls
  | _ => rfl

theorem calls_respond (c : Call) (p : Playback κ) : (s.respond c p).2.calls = p.calls := by
  have hself : s.respond c p = ((s.respond c p).1, (s.respond c p).2.withCalls p.calls) :=
    s.respond_withCalls c p p.calls
  rw [hself]
  rfl

end

/-- The library plays the script: it keeps the calls that it gets, and answers them as the script
does, its buffers being read. Which byte stands for true, and what is left where the result of a
test belongs that is not ready, is left open. -/
structure PlayedBy (s : Script) (L : Library (Playback ExportCall)) : Prop where
  surroundings : L.toSurroundings = Script.surroundings
  answers : ∀ e p,
    (e.readAnswer (L.answer e p).1, (L.answer e p).2) = s.respond e.read (note e p)

theorem byte_ne_zero (b : Bool) : ((if b then 1 else 0 : UInt8) != 0) = b := by
  cases b <;> rfl

theorem playedBy_library (s : Script) : s.PlayedBy s.library where
  surroundings := rfl
  answers e p := by
    cases e with
    | canExecute handler id => exact Prod.ext (byte_ne_zero _) rfl
    | threadedResult =>
      obtain ⟨⟨result, q⟩, hpoll⟩ : ∃ r, s.respond .poll (note ExportCall.threadedResult p) = r :=
        ⟨_, rfl⟩
      show (ExportCall.readAnswer .threadedResult (s.respondExport .threadedResult _).1,
        (s.respondExport .threadedResult _).2) = s.respond .poll _
      rw [respondExport, hpoll]
      cases result <;> rfl
    | _ => rfl

section

variable {s : Script} {L : Library (Playback ExportCall)}

/-- Every call but the one to bind goes to an exported function, which reads it as it was made. -/
theorem PlayedBy.exists_export (hL : s.PlayedBy L) {c : Call} (hc : c ≠ .bind)
    (p : Playback ExportCall) :
    ∃ e : ExportCall, e.read = c ∧ e.Carried ∧ L.respond none c p = s.respond c (note e p) := by
  have hanswers := hL.answers
  cases c with
  | bind => exact absurd rfl hc
  | init => exact ⟨.init, rfl, ExportCall.carried_of_no_buffers rfl, hanswers .init p⟩
  | baseContext =>
    exact ⟨.baseObject, rfl, ExportCall.carried_of_no_buffers rfl, hanswers .baseObject p⟩
  | canExecute handler id =>
    exact ⟨.canExecute handler id, rfl, ExportCall.carried_of_no_buffers rfl,
      hanswers (.canExecute handler id) p⟩
  | poll =>
    exact ⟨.threadedResult, rfl, ExportCall.carried_of_no_buffers rfl, hanswers .threadedResult p⟩
  | shutdown => exact ⟨.shutdown, rfl, ExportCall.carried_of_no_buffers rfl, hanswers .shutdown p⟩
  | resolve name =>
    have h : _ = s.respond (.resolve (Buffer.ofText name).text) _ :=
      hanswers (.testId (.ofText name)) p
    rw [Buffer.text_ofText] at h
    exact ⟨.testId (.ofText name), congrArg Call.resolve (Buffer.text_ofText name),
      ExportCall.carried_of_buffers rfl, h⟩
  | getHandler cls context =>
    have h : _ = s.respond (.getHandler (Buffer.ofText cls).text context) _ :=
      hanswers (.getClass (.ofText cls) context) p
    rw [Buffer.text_ofText] at h
    exact ⟨.getClass (.ofText cls) context,
      congrArg (Call.getHandler · context) (Buffer.text_ofText cls),
      ExportCall.carried_of_buffers rfl, h⟩
  | execute handler id config =>
    have h : _ = s.respond (.execute handler id (Buffer.ofText config).text) _ :=
      hanswers (.execute handler id (.ofText config)) p
    rw [Buffer.text_ofText] at h
    exact ⟨.execute handler id (.ofText config),
      congrArg (Call.execute handler id) (Buffer.text_ofText config),
      ExportCall.carried_of_buffers rfl, h⟩
  | start handler id config =>
    have h : _ = s.respond (.start handler id (Buffer.ofText config).text) _ :=
      hanswers (.threadedExecute handler id (.ofText config)) p
    rw [Buffer.text_ofText] at h
    exact ⟨.threadedExecute handler id (.ofText config),
      congrArg (Call.start handler id) (Buffer.text_ofText config),
      ExportCall.carried_of_buffers rfl, h⟩
  | release cls handler context =>
    have h : _ = s.respond (.release (Buffer.ofText cls).text handler context) _ :=
      hanswers (.submitClass (.ofText cls) handler context) p
    rw [Buffer.text_ofText] at h
    exact ⟨.submitClass (.ofText cls) handler context,
      congrArg (Call.release · handler context) (Buffer.text_ofText cls),
      ExportCall.carried_of_buffers rfl, h⟩

end

/-- A library was told what the module was told in-process. The calls that bind a module are on
record in-process only. -/
structure SameCalls (p : Playback ExportCall) (q : Playback Call) : Prop where
  calls : p.calls.map ExportCall.read = q.calls.filter (· ≠ .bind)
  carried : ∀ e ∈ p.calls, e.Carried

/-- Two playbacks of one script, the first of them by a library: they differ only in the form of the
calls on record. -/
structure Crossed (p : Playback ExportCall) (q : Playback Call) : Prop extends SameCalls p q where
  same : q = p.withCalls q.calls

section

variable {s : Script} {L : Library (Playback ExportCall)} {p : Playback ExportCall}
  {q : Playback Call}

theorem SameCalls.note (h : SameCalls p q) {e : ExportCall} {c : Call} (hread : e.read = c)
    (hc : c ≠ .bind) (hcarried : e.Carried) : SameCalls (note e p) (note c q) where
  calls := by
    have hkept : (c :: q.calls).filter (· ≠ .bind) = c :: q.calls.filter (· ≠ .bind) :=
      List.filter_cons_of_pos (by simpa using hc)
    show e.read :: p.calls.map ExportCall.read = (c :: q.calls).filter (· ≠ .bind)
    rw [hkept, hread, h.calls]
  carried := by
    intro e' he'
    rcases List.mem_cons.mp he' with rfl | he'
    · exact hcarried
    · exact h.carried e' he'

theorem SameCalls.note_bind (h : SameCalls p q) : SameCalls p (Script.note .bind q) where
  calls := h.calls
  carried := h.carried

theorem Crossed.note (h : Crossed p q) {e : ExportCall} {c : Call} (hread : e.read = c)
    (hc : c ≠ .bind) (hcarried : e.Carried) : Crossed (note e p) (note c q) where
  toSameCalls := h.toSameCalls.note hread hc hcarried
  same := by
    show Script.note c q = (Script.note e p).withCalls (c :: q.calls)
    rw [note_withCalls, ← h.same]

theorem Crossed.respond (h : Crossed p q) (c : Call) :
    (s.respond c p).1 = (s.respond c q).1 ∧ Crossed (s.respond c p).2 (s.respond c q).2 := by
  have hcalls := s.calls_respond c p
  have hboth := s.respond_withCalls c p q.calls
  rw [← h.same] at hboth
  rw [hboth]
  refine ⟨rfl, ⟨?_, ?_⟩, rfl⟩
  · rw [hcalls]
    exact h.calls
  · rw [hcalls]
    exact h.carried

theorem Crossed.raise (h : Crossed p q) : Crossed p.raise q.raise where
  calls := h.calls
  carried := h.carried
  same := by rw [h.same]; rfl

/-- A library that plays a script behaves as the script does in-process. -/
theorem world_alike (hL : s.PlayedBy L) : World.Alike Crossed (L.world none) s.world := by
  have hsurroundings : (L.world none).toSurroundings = surroundings := hL.surroundings
  refine ⟨?_, ?_, ?_, ?_⟩
  · intro p q h
    rw [hsurroundings, h.same]
    rfl
  · intro p q h
    rw [hsurroundings, h.same]
    rfl
  · intro d p q h
    rw [hsurroundings]
    exact ⟨⟨h.calls, h.carried⟩, by rw [h.same]; rfl⟩
  · intro c p q hc h
    obtain ⟨e, hread, hcarried, hrespond⟩ := hL.exists_export hc p
    show (L.respond none c p).1 = _ ∧ Crossed (L.respond none c p).2 _
    rw [hrespond]
    exact (h.note hread hc hcarried).respond c

end

end Script

end StepRunner.Stub
