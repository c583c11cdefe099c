import StepRunner.Proofs.Step.Handler
import StepRunner.Proofs.Step.Interrupt

/-!
# The verdict on a step

A `Watch` is what an onlooker knows of a step who sees its events and the surroundings, but nothing
of the step itself: how many repetitions have begun, their results, whether the flag was up where a
step attends to it, and whether a poll came too late. The verdict and the record of a step follow
from what was seen (`Judged`, `execute_judged`).
-/

namespace StepRunner

open Stub (Call Handle)

variable {ω : Type} {W : World ω}

/-- The state behind an event. -/
def World.behind (W : World ω) (w : ω) : Event → ω
  | .called c _ => (W.answer c w).2
  | .slept nanos => W.sleep nanos w

/-! ### Watching events -/

/-- What is known of a step from its events so far. -/
structure Watch where
  /-- Repetitions begun. -/
  begun : Nat := 0
  /-- The last repetition has not given back its handler. -/
  inFlight : Bool := false
  /-- When the time for its result is over. -/
  due : Nat := 0
  results : List Int := []
  /-- The flag was up where a step attends to it. -/
  interrupted : Bool := false
  /-- The repetition, counted from 0, in which a poll found no result although time was over. -/
  late : Option Nat := none

/-- What is known behind one more event, the surroundings being in the state `w` then. A step
attends to the flag when its name is resolved, when a poll finds no result and when it has slept
between two repetitions. At a poll it attends to the flag before the time. -/
def Watch.see (W : World ω) (timeout : Duration) (w : ω) (o : Watch) : Event → Watch
  | .called (.resolve _) id =>
    if (0 : Int) ≤ id ∧ W.raised w = true then { o with interrupted := true } else o
  | .called (.execute _ _ _) code =>
    { o with begun := o.begun + 1, inFlight := true, results := o.results ++ [code] }
  | .called (.start _ _ _) _ =>
    { o with begun := o.begun + 1, inFlight := true, due := W.now w + timeout.nanos }
  | .called .poll (some code) => { o with results := o.results ++ [code] }
  | .called .poll none =>
    if W.raised w then { o with interrupted := true }
    else if o.due ≤ W.now w then { o with late := some (o.begun - 1) }
    else o
  | .called (.release _ _ _) _ => { o with inFlight := false }
  | .slept _ => if o.inFlight = false ∧ W.raised w = true then { o with interrupted := true } else o
  | _ => o

/-- What is known behind events that begin in the state `w`. -/
def Watch.along (W : World ω) (timeout : Duration) (o : Watch) (w : ω) : List Event → Watch
  | [] => o
  | e :: es => (o.see W timeout (W.behind w e) e).along W timeout (W.behind w e) es

namespace Watch

variable {timeout : Duration} {w w' : ω} (o : Watch)

@[simp] theorem along_nil : o.along W timeout w [] = o := rfl

theorem along_called {c : Call} {a : c.Answer} {es : List Event} (h : W.answer c w = (a, w')) :
    o.along W timeout w (.called c a :: es) =
      (o.see W timeout w' (.called c a)).along W timeout w' es := by
  rw [along, World.behind, h]

theorem along_slept {nanos : Nat} {es : List Event} :
    o.along W timeout w (.slept nanos :: es) =
      (o.see W timeout (W.sleep nanos w) (.slept nanos)).along W timeout (W.sleep nanos w) es :=
  rfl

theorem along_append {es fs : List Event} (h : W.Leads w es w') :
    o.along W timeout w (es ++ fs) = (o.along W timeout w es).along W timeout w' fs := by
  induction h generalizing o with
  | refl => rfl
  | called ha _ ih => rw [List.cons_append, along_called o ha, ih, along_called o ha]
  | slept _ ih => rw [List.cons_append, along_slept, ih, along_slept]

theorem see_resolve {name : String} {id : Int} :
    o.see W timeout w (.called (.resolve name) id) =
      if 0 ≤ id ∧ W.raised w = true then { o with interrupted := true } else o := rfl

theorem see_poll_none : o.see W timeout w (.called .poll none) =
    if W.raised w = true then { o with interrupted := true }
    else if o.due ≤ W.now w then { o with late := some (o.begun - 1) }
    else o := rfl

theorem see_slept {nanos : Nat} : o.see W timeout w (.slept nanos) =
    if o.inFlight = false ∧ W.raised w = true then { o with interrupted := true } else o := rfl

/-- What is known when another repetition has begun. -/
def beginning (o : Watch) (due : Nat) : Watch :=
  { o with begun := o.begun + 1, inFlight := true, due }

/-- What is known when a repetition is over, if `o` was known when it had begun. -/
def concluding (o : Watch) : Attempt → Watch
  | .result code => { o with results := o.results ++ [code] }
  | .timedOut => { o with late := some (o.begun - 1) }
  | .halted _ => { o with interrupted := true }

end Watch

namespace Step

variable {w : ω} {o : Watch}

/-! ### Watching repetitions -/

theorem Awaited.along {interval deadline : Nat} {timeout : Duration} {r : Ran ω Attempt}
    (h : Awaited W interval deadline w r) (hdue : o.due = deadline) (hin : o.inFlight = true) :
    o.along W timeout w r.events = o.concluding r.value := by
  induction h with
  | ready ha =>
    rw [Watch.along_called o ha]
    rfl
  | interrupted ha hraised =>
    rw [Watch.along_called o ha, Watch.see_poll_none, if_pos hraised]
    rfl
  | timedOut ha hlow hlate =>
    rw [Watch.along_called o ha, Watch.see_poll_none, if_neg (by simp [hlow]),
      if_pos (hdue ▸ hlate)]
    rfl
  | again ha hlow hearly _ _ ih =>
    rw [Ran.behind_events, List.cons_append, Watch.along_called o ha, Watch.see_poll_none,
      if_neg (by simp [hlow]), if_neg (by omega), List.singleton_append, Watch.along_slept,
      Watch.see_slept, if_neg (by simp [hin]), ih]
    rfl

theorem Awaited.begun_eq {interval deadline : Nat} {r : Ran ω Attempt}
    (h : Awaited W interval deadline w r) : begun r.events = [] :=
  begun_of_polls h.calls_eq_poll

/-- What is known when repetitions have ended, `left` more of which were to come behind the first,
if `o` was known before. -/
inductive Shown (timeout : Duration) (left : Nat) (o o' : Watch) : Ending → Prop where
  | result {codes : List Int} {code : Int} : o'.results = o.results ++ (codes ++ [code]) →
      o'.begun = o.begun + codes.length + 1 → (∀ c ∈ codes, 0 < c) → codes.length ≤ left →
      codes.length = left ∨ code ≤ 0 → o'.interrupted = false → o'.late = none →
      Shown timeout left o o' (.result code)
  | timedOut {k : Nat} : o'.late = some k → o'.begun = k + 1 → o'.interrupted = false →
      Shown timeout left o o' (.failed (.timedOut timeout.seconds))
  | interrupted : o'.interrupted = true → o'.late = none →
      Shown timeout left o o' (.halted .interrupted)

/-- A repetition that is passed comes first. -/
theorem Shown.cons {timeout : Duration} {left : Nat} {o o₁ o' : Watch} {e : Ending} {code : Int}
    (h : Shown timeout left o₁ o' e) (hcode : 0 < code)
    (hresults : o₁.results = o.results ++ [code]) (hbegun : o₁.begun = o.begun + 1) :
    Shown timeout (left + 1) o o' e := by
  cases h with
  | @result codes e hres hbeg hpos hle hlast hint hlate =>
    have hres' : o'.results = o.results ++ ((code :: codes) ++ [e]) := by
      rw [hres, hresults, List.append_assoc, List.singleton_append, List.cons_append]
    refine .result hres' ?_ (List.forall_mem_cons.mpr ⟨hcode, hpos⟩) (Nat.succ_le_succ hle)
      (hlast.imp_left fun heq => by rw [List.length_cons, heq]) hint hlate
    rw [hbeg, hbegun, List.length_cons]
    omega
  | timedOut hlate hbeg hint => exact .timedOut hlate hbeg hint
  | interrupted hint hlate => exact .interrupted hint hlate

namespace Setting

variable {s : Setting}

theorem Attempted.along {r : Ran ω Attempt} (h : s.Attempted W w r)
    (hr : r.value ≠ .halted .clockOverflow) :
    ∃ due, o.along W s.config.timeout w r.events = (o.beginning due).concluding r.value := by
  cases h with
  | blocking _ ha =>
    refine ⟨o.due, ?_⟩
    rw [Watch.along_called o ha]
    rfl
  | unlimited => exact absurd rfl hr
  | @polled _ deadline w₁ _ _ ha hdeadline hrest =>
    have hdue : deadline = W.now w₁ + s.config.timeout.nanos := eq_of_deadline? hdeadline
    refine ⟨deadline, ?_⟩
    rw [Ran.behind_events, List.singleton_append, Watch.along_called o ha, hrest.along hdue.symm rfl,
      hdue]
    rfl

/-- What the ending of a step shows behind its last repetition. -/
theorem ending?_shown {left : Nat} {a : Attempt} {e : Ending} {due : Nat}
    (h : s.ending? left a = some e) (hint : o.interrupted = false) (hlate : o.late = none) :
    Shown s.config.timeout left o { (o.beginning due).concluding a with inFlight := false } e := by
  match a with
  | .halted .interrupted =>
    cases h
    exact .interrupted rfl hlate
  | .timedOut =>
    cases h
    exact .timedOut rfl rfl hint
  | .result code =>
    dsimp only [ending?] at h
    split at h
    · next hlast =>
      cases h
      have hresults : o.results ++ [code] = o.results ++ ([] ++ [code]) := rfl
      exact .result hresults rfl nofun (Nat.zero_le _) (hlast.imp_left Eq.symm) hint hlate
    · cases h

theorem Repeated.along {left : Nat} {n : UInt32} {r : Ran ω (Ending × UInt32)}
    (h : s.Repeated W left n w r) (hr : r.value.1 ≠ .halted .clockOverflow)
    (hint : o.interrupted = false) (hlate : o.late = none) :
    Shown s.config.timeout left o (o.along W s.config.timeout w r.events) r.value.1 := by
  induction h generalizing o with
  | broke => exact absurd rfl hr
  | @last left _ _ _ _ a es e ha he hback =>
    obtain ⟨due, hattempt⟩ := ha.along (o := o) (by rintro ⟨⟩; cases he)
    rw [Watch.along_append o ha.leads, hattempt, Watch.along_called _ hback]
    exact ending?_shown he hint hlate
  | @interrupted left _ code _ _ _ w₃ es ha _ hback hnap hraised =>
    obtain ⟨due, hattempt⟩ := ha.along (o := o) (by simp)
    rw [Watch.along_append o ha.leads, hattempt, Watch.along_called _ hback, Watch.along_slept,
      hnap, Watch.see_slept, if_pos ⟨rfl, hraised⟩]
    exact .interrupted rfl hlate
  | @again left _ code w _ _ w₃ es r ha hcode hback hnap hlow hrest ih =>
    obtain ⟨due, hattempt⟩ := ha.along (o := o) (by simp)
    have hpause : o.along W s.config.timeout w
          (es ++ [.called s.giveBack (), .slept s.config.repeatPause.nanos]) =
        { (o.beginning due).concluding (.result code) with inFlight := false } := by
      rw [Watch.along_append o ha.leads, hattempt, Watch.along_called _ hback, Watch.along_slept,
        hnap, Watch.see_slept, if_neg (by simp [hlow])]
      rfl
    rw [Ran.behind_events, Watch.along_append o (ha.leads_pause hback hnap), hpause]
    exact Shown.cons (o := o) (ih hr hint hlate) hcode rfl rfl

theorem Attempted.begun_eq {r : Ran ω Attempt} (h : s.Attempted W w r) :
    begun r.events = [s.handler] := by
  cases h with
  | blocking | unlimited => rfl
  | polled _ _ _ hrest => simpa [Call.begins?] using hrest.begun_eq

/-- The repetitions begun are counted. -/
theorem Repeated.attempts {left : Nat} {n : UInt32} {r : Ran ω (Ending × UInt32)}
    (h : s.Repeated W left n w r) :
    r.value.2 = n + UInt32.ofNat (begun r.events).length ∧ (begun r.events).length ≤ left + 1 := by
  have hback : s.giveBack.begins? = none := rfl
  induction h with
  | broke ha => simp [show begun _ = [s.handler] from ha.begun_eq]
  | last ha _ _ => simp [show begun _ = [s.handler] from ha.begun_eq, hback]
  | interrupted ha => simp [show begun _ = [s.handler] from ha.begun_eq, hback]
  | @again left n _ _ _ _ _ es r ha _ _ _ _ _ ih =>
    obtain ⟨hcount, hle⟩ := ih
    have hlength : (begun (r.behind (es ++ [.called s.giveBack (),
        .slept s.config.repeatPause.nanos])).events).length = 1 + (begun r.events).length := by
      simp [show begun es = [s.handler] from ha.begun_eq, hback]
      omega
    rw [hlength, Ran.behind_value, hcount, UInt32.ofNat_add, UInt32.add_assoc]
    exact ⟨rfl, by omega⟩

/-- Nothing is asked about the test or its handler any more. -/
theorem Repeated.not_mem {left : Nat} {n : UInt32} {r : Ran ω (Ending × UInt32)} {c : Call}
    {a : c.Answer} (h : s.Repeated W left n w r) (hc : c.isOfRepetition = false) :
    .called c a ∉ r.events := fun hmem => by
  have hcall := h.ofRepetition c (List.mem_filterMap.mpr ⟨_, hmem, rfl⟩)
  rw [hc] at hcall
  cases hcall

end Setting

/-! ### The whole step -/

section

variable {config : Config} {context : Handle} {step : Step} {r : Ran ω (Ending × UInt32)}

/-- Every repetition is counted, in 32 bits. -/
theorem Performed.attempts_eq (h : step.Performed W config context w r) :
    r.value.2 = UInt32.ofNat (begun r.events).length ∧
      (begun r.events).length ≤ step.repeats.toNat + 1 := by
  cases h with
  | unknown | interrupted | noHandler | refused => exact ⟨rfl, Nat.zero_le _⟩
  | repeated _ _ _ _ _ _ hrep =>
    obtain ⟨hcount, hle⟩ := hrep.attempts
    exact ⟨hcount.trans (UInt32.zero_add _), hle⟩

theorem Performed.attempts (h : step.Performed W config context w r)
    (hrepeats : step.repeats.toNat < UInt32.size - 1) :
    r.value.2.toNat = (begun r.events).length := by
  obtain ⟨hcount, hle⟩ := h.attempts_eq
  rw [hcount, UInt32.toNat_ofNat_of_lt' (by omega)]

theorem Performed.shown (h : step.Performed W config context w r)
    (hr : r.value.1 ≠ .halted .clockOverflow) (hbegun : begun r.events ≠ []) :
    Shown config.timeout step.repeats.toNat {} (Watch.along W config.timeout {} w r.events)
      r.value.1 := by
  cases h with
  | unknown | interrupted | noHandler | refused => exact absurd rfl hbegun
  | repeated hid _ hlow hget _ hcan hrep =>
    rw [Ran.behind_events, List.cons_append, Watch.along_called _ hid, Watch.see_resolve,
      if_neg (by simp [hlow]), List.cons_append, Watch.along_called _ hget, List.singleton_append,
      Watch.along_called _ hcan]
    exact hrep.along hr rfl rfl

end

end Step

end StepRunner
