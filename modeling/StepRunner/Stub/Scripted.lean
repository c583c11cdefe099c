import StepRunner.Stub.Load

/-!
# Scripted stub modules

A stub module that plays a script and keeps a record of the calls it got. It comes in two forms,
in-process and as a library; both play the same script, the library having to read the texts from
its buffers first.
-/

namespace StepRunner.Stub

/-- What a scripted module does. Names refer to the last name that was resolved. -/
structure Script where
  /-- What setting up gives; 0 is failure. -/
  init : UInt8 := 1
  context : Handle := ⟨4096⟩
  bindError : Option String := none
  /-- Ids of names; a name that is not listed gets the next number when it first appears. -/
  ids : List (String × Int) := []
  /-- Handlers of classes. -/
  handlers : List (String × Handle) := []
  refuse : List String := []
  /-- Results of the executions of a name, in order. -/
  results : List (String × List Int) := []
  /-- How many polls find no result after a start; none finds one if negative. -/
  polls : List (String × Int) := []
  token : Handle := ⟨12288⟩
  /-- The number of the call during which the interrupt flag is raised. -/
  raiseAt : Option Nat := none
  deriving Repr

/-- A started test: the polls until its result can be had, if ever, and the result. -/
structure Pending where
  countdown : Option Nat
  result : Int
  deriving DecidableEq, Repr

/-- How far a script has been played; `κ` is the form in which calls arrive. -/
structure Playback (κ : Type) where
  /-- The calls so far, the last one first. -/
  calls : List κ
  /-- The calls up to the one that raises the flag. -/
  untilRaise : Option Nat
  current : String
  assigned : List (String × Int)
  results : List (String × List Int)
  pending : Option Pending
  now : Nat
  raised : Bool

namespace Script

variable {κ : Type}

def begin (s : Script) : Playback κ := ⟨[], s.raiseAt, "", [], s.results, none, 0, false⟩

/-- Puts a call on record, before it is answered. -/
def note (c : κ) (p : Playback κ) : Playback κ :=
  { p with
    calls := c :: p.calls
    untilRaise := p.untilRaise.map (· - 1)
    raised := p.raised || p.untilRaise == some 1 }

def idOf (s : Script) (name : String) (p : Playback κ) : Int × Playback κ :=
  match s.ids.lookup name <|> p.assigned.lookup name with
  | some id => (id, { p with current := name })
  | none =>
    let id : Int := p.assigned.length
    (id, { p with current := name, assigned := (name, id) :: p.assigned })

/-- The next result of the current name, 1 if there is none left. -/
def takeResult (p : Playback κ) : Int × Playback κ :=
  match p.results.lookup p.current with
  | some (r :: rs) =>
    let results := p.results.map fun e => if e.1 = p.current then (e.1, rs) else e
    (r, { p with results })
  | _ => (1, p)

def startTest (s : Script) (p : Playback κ) : Playback κ :=
  let polls := (s.polls.lookup p.current).getD 0
  let (result, p) := takeResult p
  { p with pending := some ⟨if polls < 0 then none else some polls.toNat, result⟩ }

def poll (p : Playback κ) : Option Int × Playback κ :=
  match p.pending with
  | some ⟨some 0, result⟩ => (some result, { p with pending := none })
  | some ⟨some (n + 1), result⟩ => (none, { p with pending := some ⟨some n, result⟩ })
  | _ => (none, p)

/-- The answer to a call that is on record. -/
def respond (s : Script) : (c : Call) → Playback κ → c.Answer × Playback κ
  | .init, p => (s.init != 0, p)
  | .baseContext, p => (s.context, p)
  | .bind, p => (match s.bindError with
    | some m => .error (.refused m)
    | none => .ok (), p)
  | .resolve name, p => s.idOf name p
  | .getHandler cls _, p => ((s.handlers.lookup cls).getD ⟨8192⟩, p)
  | .canExecute _ _, p => (!s.refuse.contains p.current, p)
  | .execute _ _ _, p => takeResult p
  | .start _ _ _, p => (s.token, s.startTest p)
  | .poll, p => poll p
  | .release _ _ _, p => ((), p)
  | .shutdown, p => ((), p)

theorem idOf_now_raised (s : Script) (name : String) (p : Playback κ) :
    (s.idOf name p).2.now = p.now ∧ (s.idOf name p).2.raised = p.raised := by
  unfold idOf; split <;> exact ⟨rfl, rfl⟩

theorem takeResult_now_raised (p : Playback κ) :
    (takeResult p).2.now = p.now ∧ (takeResult p).2.raised = p.raised := by
  unfold takeResult; split <;> exact ⟨rfl, rfl⟩

theorem poll_now_raised (p : Playback κ) :
    (poll p).2.now = p.now ∧ (poll p).2.raised = p.raised := by
  unfold poll; split <;> exact ⟨rfl, rfl⟩

theorem respond_now_raised (s : Script) (c : Call) (p : Playback κ) :
    (s.respond c p).2.now = p.now ∧ (s.respond c p).2.raised = p.raised := by
  cases c with
  | resolve name => exact s.idOf_now_raised name p
  | execute => exact takeResult_now_raised p
  | start => exact takeResult_now_raised p
  | poll => exact poll_now_raised p
  | _ => exact ⟨rfl, rfl⟩

/-- Playing takes no time but the time slept. -/
def surroundings : Surroundings (Playback κ) where
  sleep d p := { p with now := p.now + max d 1 }
  now := Playback.now
  raised := Playback.raised
  now_sleep _ p := Nat.add_le_add_left (Nat.le_max_left _ _) p.now
  raised_sleep _ _ h := h

/-- The module in-process. -/
def world (s : Script) : World (Playback Call) where
  toSurroundings := surroundings
  answer c p := s.respond c (note c p)
  now_answer c p := by
    show p.now ≤ (s.respond c (note c p)).2.now
    rw [(s.respond_now_raised c _).1]
    exact Nat.le_refl _
  raised_answer c p h := by
    show (s.respond c (note c p)).2.raised = true
    rw [(s.respond_now_raised c _).2]
    exact Bool.or_eq_true_iff.mpr (.inl h)
  now_nap _ _ := Nat.lt_succ_self _

/-- The answer of the library to a call that is on record. -/
def respondExport (s : Script) : (e : ExportCall) → Playback κ → e.Answer × Playback κ
  | .init, p => (s.init, p)
  | .baseObject, p => s.respond .baseContext p
  | .testId name, p => s.respond (.resolve name.text) p
  | .getClass cls context, p => s.respond (.getHandler cls.text context) p
  | .canExecute handler id, p =>
    let r := s.respond (.canExecute handler id) p
    (if r.1 then 1 else 0, r.2)
  | .execute handler id config, p => s.respond (.execute handler id config.text) p
  | .threadedExecute handler id config, p => s.respond (.start handler id config.text) p
  | .threadedResult, p =>
    match s.respond .poll p with
    | (some result, p) => ((1, result), p)
    | (none, p) => ((0, 0), p)
  | .submitClass cls handler context, p => s.respond (.release cls.text handler context) p
  | .shutdown, p => s.respond .shutdown p

theorem respondExport_now_raised (s : Script) (e : ExportCall) (p : Playback κ) :
    (s.respondExport e p).2.now = p.now ∧ (s.respondExport e p).2.raised = p.raised := by
  cases e
  case threadedResult =>
    have h := s.respond_now_raised .poll p
    simp only [respondExport]
    split <;> next heq => rw [heq] at h; exact h
  case init => exact ⟨rfl, rfl⟩
  all_goals exact s.respond_now_raised _ p

/-- The module as a library. -/
def library (s : Script) : Library (Playback ExportCall) where
  toSurroundings := surroundings
  loader := plainLoader
  answer e p := s.respondExport e (note e p)
  now_answer e p := by
    show p.now ≤ (s.respondExport e (note e p)).2.now
    rw [(s.respondExport_now_raised e _).1]
    exact Nat.le_refl _
  raised_answer e p h := by
    show (s.respondExport e (note e p)).2.raised = true
    rw [(s.respondExport_now_raised e _).2]
    exact Bool.or_eq_true_iff.mpr (.inl h)
  now_nap _ _ := Nat.lt_succ_self _

end Script

end StepRunner.Stub
