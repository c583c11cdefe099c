import StepRunner.Proofs.Events
import StepRunner.Step.Execute

/-!
# What executing a step can do

For each part of the execution of a step a relation lists the ways it can go, with the guards, the
answers and the states on each way; the part itself is one of them (`awaitResult_awaited`,
`attempt_attempted`, `repetitions_repeated`, `perform_performed`). What is proved of executions is
proved from these relations.
-/

namespace StepRunner

theorem Ending.verdict_eq_error {e : Ending} {h : Halt} :
    e.verdict = .error h ↔ e = .halted h := by
  cases e <;> simp [verdict]

theorem Ending.ne_halted {e : Ending} {v : Verdict} (hv : .ok v = e.verdict) (h : Halt) :
    e ≠ .halted h := by
  rintro rfl
  cases hv

theorem Ending.eq_failed {e : Ending} {v : Verdict} {f : StepFault} (hv : .ok v = e.verdict)
    (hf : v.fault = some f) : e = .failed f := by
  cases e with
  | failed g =>
    cases hv
    exact congrArg Ending.failed (Option.some.inj hf)
  | result =>
    cases hv
    cases hf
  | halted => cases hv

theorem eq_of_deadline? {now deadline : Nat} {timeout : Duration}
    (h : deadline? now timeout = some deadline) : deadline = now + timeout.nanos := by
  unfold deadline? at h
  split at h
  · exact (Option.some.inj h).symm
  · cases h

namespace Step

open Stub (Call Handle)
open Activity (call pure_behind bind_of_eq call_of_answer pause_bind clock_bind isInterrupted_bind)

variable {ω : Type} {W : World ω}

/-! ### Waiting for a result -/

/-- The ways of waiting for a result from a state on. -/
inductive Awaited (W : World ω) (interval deadline : Nat) : ω → Ran ω Attempt → Prop where
  | ready {code : Int} {w w₁ : ω} : W.answer .poll w = (some code, w₁) →
      Awaited W interval deadline w ⟨.result code, [.called .poll (some code)], w₁⟩
  | interrupted {w w₁ : ω} : W.answer .poll w = (none, w₁) → W.raised w₁ = true →
      Awaited W interval deadline w ⟨.halted .interrupted, [.called .poll none], w₁⟩
  | timedOut {w w₁ : ω} : W.answer .poll w = (none, w₁) → W.raised w₁ = false →
      deadline ≤ W.now w₁ →
      Awaited W interval deadline w ⟨.timedOut, [.called .poll none], w₁⟩
  | again {nap : Nat} {w w₁ : ω} {r : Ran ω Attempt} : W.answer .poll w = (none, w₁) →
      W.raised w₁ = false → W.now w₁ < deadline → nap = min interval (deadline - W.now w₁) →
      Awaited W interval deadline (W.sleep nap w₁) r →
      Awaited W interval deadline w (r.behind [.called .poll none, .slept nap])

theorem awaitResult_awaited (interval deadline : Nat) (w : ω) :
    Awaited W interval deadline w (awaitResult W interval deadline w) := by
  induction w using awaitResult.induct W interval deadline with
  | case1 w polled code hready =>
    rw [awaitResult_eq]
    simp only [polled, call] at hready ⊢
    simp only [hready]
    exact .ready (Prod.ext hready rfl)
  | case2 w polled hready hraised =>
    rw [awaitResult_eq]
    simp only [polled, call] at hready hraised ⊢
    simp only [hready, hraised, if_true]
    exact .interrupted (Prod.ext hready rfl) hraised
  | case3 w polled hready hraised hlate =>
    rw [awaitResult_eq]
    simp only [polled, call] at hready hraised hlate ⊢
    simp only [hready, hraised, hlate, if_true]
    exact .timedOut (Prod.ext hready rfl) (Bool.eq_false_iff.mpr hraised) hlate
  | case4 w polled hready hraised hlate nap ih =>
    rw [awaitResult_eq]
    simp only [polled, nap, call] at hready hraised hlate ih ⊢
    simp only [hready, hraised, hlate]
    exact .again (Prod.ext hready rfl) (Bool.eq_false_iff.mpr hraised)
      (Nat.lt_of_not_le hlate) rfl ih

theorem Awaited.leads {interval deadline : Nat} {w : ω} {r : Ran ω Attempt}
    (h : Awaited W interval deadline w r) : W.Leads w r.events r.state := by
  induction h with
  | ready ha | interrupted ha | timedOut ha => exact .called ha (.refl _)
  | again ha _ _ _ _ ih => exact .called ha (.slept ih)

/-- Nothing is called but polls. -/
theorem Awaited.calls_eq_poll {interval deadline : Nat} {w : ω} {r : Ran ω Attempt}
    (h : Awaited W interval deadline w r) : ∀ c ∈ callsOf r.events, c = .poll := by
  induction h with
  | ready | interrupted | timedOut => simp [callsOf, Event.call?]
  | again _ _ _ _ _ ih => simpa [callsOf, Event.call?] using ih

theorem Awaited.perStep {interval deadline : Nat} {w : ω} {r : Ran ω Attempt}
    (h : Awaited W interval deadline w r) : PerStep r.events := fun c hc => by
  rw [h.calls_eq_poll c hc]
  rfl

theorem Awaited.value_ne_overflow {interval deadline : Nat} {w : ω} {r : Ran ω Attempt}
    (h : Awaited W interval deadline w r) : r.value ≠ .halted .clockOverflow := by
  induction h with
  | ready | interrupted | timedOut => simp
  | again _ _ _ _ _ ih => exact ih

theorem Awaited.raised {interval deadline : Nat} {w : ω} {r : Ran ω Attempt}
    (h : Awaited W interval deadline w r) (hr : r.value = .halted .interrupted) :
    W.raised r.state = true := by
  induction h with
  | ready | timedOut => cases hr
  | interrupted _ hraised => exact hraised
  | again _ _ _ _ _ ih => exact ih hr

/-! ### One repetition -/

theorem runPolled_of_deadline {config : Config} {handler token : Handle} {id : Int} {arg : String}
    {deadline : Nat} {w w₁ : ω} (hstart : W.answer (.start handler id arg) w = (token, w₁))
    (hdeadline : deadline? (W.now w₁) config.timeout = some deadline) :
    ∃ r, Awaited W config.pollInterval.nanos deadline w₁ r ∧
      runPolled W config handler id arg w = r.behind [.called (.start handler id arg) token] := by
  rw [runPolled, bind_of_eq (call_of_answer hstart), clock_bind, hdeadline]
  exact ⟨_, awaitResult_awaited _ _ _, rfl⟩

namespace Setting

/-- The call that gives back the handler. -/
abbrev giveBack (s : Setting) : Call := .release s.step.className s.handler s.context

/-- The ways of one repetition. -/
inductive Attempted (W : World ω) (s : Setting) (w : ω) : Ran ω Attempt → Prop where
  | blocking {code : Int} {w₁ : ω} : s.config.isLongRunning s.step.name = false →
      W.answer (.execute s.handler s.id s.step.configArg) w = (code, w₁) →
      Attempted W s w
        ⟨.result code, [.called (.execute s.handler s.id s.step.configArg) code], w₁⟩
  | unlimited {token : Handle} {w₁ : ω} : s.config.isLongRunning s.step.name = true →
      W.answer (.start s.handler s.id s.step.configArg) w = (token, w₁) →
      deadline? (W.now w₁) s.config.timeout = none →
      Attempted W s w
        ⟨.halted .clockOverflow, [.called (.start s.handler s.id s.step.configArg) token], w₁⟩
  | polled {token : Handle} {deadline : Nat} {w₁ : ω} {r : Ran ω Attempt} :
      s.config.isLongRunning s.step.name = true →
      W.answer (.start s.handler s.id s.step.configArg) w = (token, w₁) →
      deadline? (W.now w₁) s.config.timeout = some deadline →
      Awaited W s.config.pollInterval.nanos deadline w₁ r →
      Attempted W s w (r.behind [.called (.start s.handler s.id s.step.configArg) token])

theorem attempt_attempted (s : Setting) (w : ω) : s.Attempted W w (s.attempt W w) := by
  unfold attempt
  split
  · next hlong =>
    obtain ⟨⟨token, w₁⟩, hstart⟩ :
        ∃ p, W.answer (.start s.handler s.id s.step.configArg) w = p := ⟨_, rfl⟩
    cases hd : deadline? (W.now w₁) s.config.timeout with
    | none =>
      rw [runPolled, bind_of_eq (call_of_answer hstart), clock_bind, hd]
      exact .unlimited hlong hstart hd
    | some deadline =>
      obtain ⟨r, hr, hrun⟩ := runPolled_of_deadline hstart hd
      rw [hrun]
      exact .polled hlong hstart hd hr
  · next hshort =>
    exact .blocking (Bool.eq_false_iff.mpr hshort) rfl

theorem Attempted.leads {s : Setting} {w : ω} {r : Ran ω Attempt} (h : s.Attempted W w r) :
    W.Leads w r.events r.state := by
  cases h with
  | blocking _ ha | unlimited _ ha _ => exact .called ha (.refl _)
  | polled _ ha _ hr => exact .called ha hr.leads

theorem Attempted.perStep {s : Setting} {w : ω} {r : Ran ω Attempt} (h : s.Attempted W w r) :
    PerStep r.events := by
  cases h with
  | blocking | unlimited => simp [Call.isPerStep]
  | polled _ _ _ ha => simp [Call.isPerStep, ha.perStep]

/-- A repetition breaks down when a deadline cannot be told, which it cannot still. -/
theorem Attempted.untellable {s : Setting} {w : ω} {r : Ran ω Attempt} (h : s.Attempted W w r)
    (hr : r.value = .halted .clockOverflow) :
    deadline? (W.now r.state) s.config.timeout = none := by
  cases h with
  | blocking => cases hr
  | unlimited _ _ hd => exact hd
  | polled _ _ _ ha => exact absurd hr ha.value_ne_overflow

theorem Attempted.raised {s : Setting} {w : ω} {r : Ran ω Attempt} (h : s.Attempted W w r)
    (hr : r.value = .halted .interrupted) : W.raised r.state = true := by
  cases h with
  | blocking | unlimited => cases hr
  | polled _ _ _ ha => exact ha.raised hr

/-! ### All repetitions -/

/-- The ending of a step whose last repetition went like this, if that was the last with `left`
repetitions to come. The program breaks down without any ending. -/
def ending? (s : Setting) (left : Nat) : Attempt → Option Ending
  | .halted .clockOverflow => none
  | .halted .interrupted => some (.halted .interrupted)
  | .timedOut => some (.failed (.timedOut s.config.timeout.seconds))
  | .result code => if left = 0 ∨ code ≤ 0 then some (.result code) else none

/-- The ways of the repetitions of a step, `n` having been begun before. -/
inductive Repeated (W : World ω) (s : Setting) :
    Nat → UInt32 → ω → Ran ω (Ending × UInt32) → Prop where
  | broke {left : Nat} {n : UInt32} {w w₁ : ω} {es : List Event} :
      s.Attempted W w ⟨.halted .clockOverflow, es, w₁⟩ →
      Repeated W s left n w ⟨(.halted .clockOverflow, n + 1), es, w₁⟩
  | last {left : Nat} {n : UInt32} {w w₁ w₂ : ω} {a : Attempt} {es : List Event} {e : Ending} :
      s.Attempted W w ⟨a, es, w₁⟩ → s.ending? left a = some e →
      W.answer s.giveBack w₁ = ((), w₂) →
      Repeated W s left n w ⟨(e, n + 1), es ++ [.called s.giveBack ()], w₂⟩
  | interrupted {left : Nat} {n : UInt32} {code : Int} {w w₁ w₂ w₃ : ω} {es : List Event} :
      s.Attempted W w ⟨.result code, es, w₁⟩ → 0 < code → W.answer s.giveBack w₁ = ((), w₂) →
      W.sleep s.config.repeatPause.nanos w₂ = w₃ → W.raised w₃ = true →
      Repeated W s (left + 1) n w
        ⟨(.halted .interrupted, n + 1),
          es ++ [.called s.giveBack (), .slept s.config.repeatPause.nanos], w₃⟩
  | again {left : Nat} {n : UInt32} {code : Int} {w w₁ w₂ w₃ : ω} {es : List Event}
      {r : Ran ω (Ending × UInt32)} :
      s.Attempted W w ⟨.result code, es, w₁⟩ → 0 < code → W.answer s.giveBack w₁ = ((), w₂) →
      W.sleep s.config.repeatPause.nanos w₂ = w₃ → W.raised w₃ = false →
      Repeated W s left (n + 1) w₃ r →
      Repeated W s (left + 1) n w
        (r.behind (es ++ [.called s.giveBack (), .slept s.config.repeatPause.nanos]))

theorem repetitions_repeated (s : Setting) (left : Nat) (n : UInt32) (w : ω) :
    s.Repeated W left n w (s.repetitions W left n w) := by
  -- Strong induction: how the repetition went is told before how many are left.
  induction left using Nat.strongRecOn generalizing n w with
  | ind left ih =>
    have ha := s.attempt_attempted (W := W) w
    obtain ⟨⟨a, es, w₁⟩, hr⟩ : ∃ r, s.attempt W w = r := ⟨_, rfl⟩
    obtain ⟨⟨_, w₂⟩, hback⟩ : ∃ p, W.answer s.giveBack w₁ = p := ⟨_, rfl⟩
    rw [hr] at ha
    rw [repetitions, bind_of_eq hr]
    match a with
    | .halted .clockOverflow =>
      rw [pure_behind]
      exact .broke ha
    | .halted .interrupted =>
      dsimp only
      rw [bind_of_eq (call_of_answer hback)]
      exact .last ha rfl hback
    | .timedOut =>
      dsimp only
      rw [bind_of_eq (call_of_answer hback)]
      exact .last ha rfl hback
    | .result code =>
      dsimp only
      rw [bind_of_eq (call_of_answer hback)]
      match left with
      | 0 => exact .last ha (by simp [ending?]) hback
      | left + 1 =>
        by_cases hcode : code ≤ 0
        · dsimp only
          rw [if_pos hcode]
          exact .last ha (by simp [ending?, hcode]) hback
        · dsimp only
          rw [if_neg hcode, pause_bind, isInterrupted_bind]
          obtain ⟨w₃, hnap⟩ : ∃ w₃, W.sleep s.config.repeatPause.nanos w₂ = w₃ := ⟨_, rfl⟩
          rw [hnap, Ran.behind_behind, Ran.behind_behind, List.append_assoc]
          split
          · next hraised =>
            rw [pure_behind]
            exact .interrupted ha (Int.lt_of_not_ge hcode) hback hnap hraised
          · next hraised =>
            exact .again ha (Int.lt_of_not_ge hcode) hback hnap (Bool.eq_false_iff.mpr hraised)
              (ih left (Nat.lt_succ_self _) _ _)

theorem Repeated.leads {s : Setting} {left : Nat} {n : UInt32} {w : ω}
    {r : Ran ω (Ending × UInt32)} (h : s.Repeated W left n w r) :
    W.Leads w r.events r.state := by
  induction h with
  | broke ha => exact ha.leads
  | last ha _ hback => exact ha.leads.trans (.called hback (.refl _))
  | interrupted ha _ hback hnap _ =>
    subst hnap
    exact ha.leads.trans (.called hback (.slept (.refl _)))
  | again ha _ hback hnap _ _ ih =>
    subst hnap
    rw [Ran.behind_events, List.append_assoc]
    exact ha.leads.trans (.called hback (.slept ih))

theorem Repeated.perStep {s : Setting} {left : Nat} {n : UInt32} {w : ω}
    {r : Ran ω (Ending × UInt32)} (h : s.Repeated W left n w r) : PerStep r.events := by
  induction h with
  | broke ha => exact ha.perStep
  | last ha | interrupted ha => simpa [Call.isPerStep] using ha.perStep
  | again ha _ _ _ _ _ ih => simpa [Call.isPerStep, ih] using ha.perStep

theorem ending?_ne_overflow {s : Setting} {left : Nat} {a : Attempt} {e : Ending}
    (h : s.ending? left a = some e) : e ≠ .halted .clockOverflow := by
  unfold ending? at h
  split at h
  · cases h
  · cases h; simp
  · cases h; simp
  · split at h
    · cases h; simp
    · cases h

theorem Repeated.untellable {s : Setting} {left : Nat} {n : UInt32} {w : ω}
    {r : Ran ω (Ending × UInt32)} (h : s.Repeated W left n w r)
    (hr : r.value.1 = .halted .clockOverflow) :
    deadline? (W.now r.state) s.config.timeout = none := by
  induction h with
  | broke ha => exact ha.untellable rfl
  | last _ he _ => exact absurd hr (ending?_ne_overflow he)
  | interrupted => cases hr
  | again _ _ _ _ _ _ ih => exact ih hr

theorem ending?_eq_interrupted {s : Setting} {left : Nat} {a : Attempt}
    (h : s.ending? left a = some (.halted .interrupted)) : a = .halted .interrupted := by
  unfold ending? at h
  split at h
  · cases h
  · rfl
  · cases h
  · split at h <;> cases h

theorem Repeated.raised {s : Setting} {left : Nat} {n : UInt32} {w : ω}
    {r : Ran ω (Ending × UInt32)} (h : s.Repeated W left n w r)
    (hr : r.value.1 = .halted .interrupted) : W.raised r.state = true := by
  induction h with
  | broke => cases hr
  | last ha he hback =>
    subst hr
    have hraised := ha.raised (ending?_eq_interrupted he)
    exact (World.Leads.called hback (.refl _)).raised hraised
  | interrupted _ _ _ _ hraised => exact hraised
  | again _ _ _ _ _ _ ih => exact ih hr

end Setting

/-! ### The whole step -/

/-- The ways of a step up to its ending. -/
inductive Performed (W : World ω) (config : Config) (context : Handle) (step : Step) (w : ω) :
    Ran ω (Ending × UInt32) → Prop where
  | unknown {id : Int} {w₁ : ω} : W.answer (.resolve step.name) w = (id, w₁) → id < 0 →
      Performed W config context step w
        ⟨(.failed (.unknownTest step.name), 0), [.called (.resolve step.name) id], w₁⟩
  | interrupted {id : Int} {w₁ : ω} : W.answer (.resolve step.name) w = (id, w₁) → 0 ≤ id →
      W.raised w₁ = true →
      Performed W config context step w
        ⟨(.halted .interrupted, 0), [.called (.resolve step.name) id], w₁⟩
  | noHandler {id : Int} {handler : Handle} {w₁ w₂ : ω} :
      W.answer (.resolve step.name) w = (id, w₁) → 0 ≤ id → W.raised w₁ = false →
      W.answer (.getHandler step.className context) w₁ = (handler, w₂) → handler.isNull = true →
      Performed W config context step w
        ⟨(.failed (.notExecutable step.className id), 0),
          [.called (.resolve step.name) id,
            .called (.getHandler step.className context) handler], w₂⟩
  | refused {id : Int} {handler : Handle} {w₁ w₂ w₃ : ω} :
      W.answer (.resolve step.name) w = (id, w₁) → 0 ≤ id → W.raised w₁ = false →
      W.answer (.getHandler step.className context) w₁ = (handler, w₂) → handler.isNull = false →
      W.answer (.canExecute handler id) w₂ = (false, w₃) →
      Performed W config context step w
        ⟨(.failed (.notExecutable step.className id), 0),
          [.called (.resolve step.name) id, .called (.getHandler step.className context) handler,
            .called (.canExecute handler id) false], w₃⟩
  | repeated {id : Int} {handler : Handle} {w₁ w₂ w₃ : ω} {r : Ran ω (Ending × UInt32)} :
      W.answer (.resolve step.name) w = (id, w₁) → 0 ≤ id → W.raised w₁ = false →
      W.answer (.getHandler step.className context) w₁ = (handler, w₂) → handler.isNull = false →
      W.answer (.canExecute handler id) w₂ = (true, w₃) →
      Setting.Repeated W ⟨config, step, context, id, handler⟩ step.repeats.toNat 0 w₃ r →
      Performed W config context step w
        (r.behind [.called (.resolve step.name) id,
          .called (.getHandler step.className context) handler,
          .called (.canExecute handler id) true])

theorem perform_performed (config : Config) (context : Handle) (step : Step) (w : ω) :
    step.Performed W config context w (step.perform W config context w) := by
  obtain ⟨⟨id, w₁⟩, hid⟩ : ∃ p, W.answer (.resolve step.name) w = p := ⟨_, rfl⟩
  obtain ⟨⟨handler, w₂⟩, hget⟩ :
      ∃ p, W.answer (.getHandler step.className context) w₁ = p := ⟨_, rfl⟩
  obtain ⟨⟨can, w₃⟩, hcan⟩ : ∃ p, W.answer (.canExecute handler id) w₂ = p := ⟨_, rfl⟩
  rw [perform, bind_of_eq (call_of_answer hid)]
  by_cases hneg : id < 0
  · rw [if_pos hneg, pure_behind]
    exact .unknown hid hneg
  have hid₀ := Int.not_lt.mp hneg
  rw [if_neg hneg, isInterrupted_bind]
  cases hraised : W.raised w₁ with
  | true =>
    rw [if_pos rfl, pure_behind]
    exact .interrupted hid hid₀ hraised
  | false =>
    rw [if_neg Bool.false_ne_true, bind_of_eq (call_of_answer hget)]
    cases hnull : handler.isNull with
    | true =>
      rw [if_pos rfl, pure_behind]
      exact .noHandler hid hid₀ hraised hget hnull
    | false =>
      rw [if_neg Bool.false_ne_true, bind_of_eq (call_of_answer hcan)]
      cases can with
      | true => exact .repeated hid hid₀ hraised hget hnull hcan (Setting.repetitions_repeated ..)
      | false => exact .refused hid hid₀ hraised hget hnull hcan

theorem Performed.leads {config : Config} {context : Handle} {step : Step} {w : ω}
    {r : Ran ω (Ending × UInt32)} (h : step.Performed W config context w r) :
    W.Leads w r.events r.state := by
  cases h with
  | unknown hid _ | interrupted hid _ _ => exact .called hid (.refl _)
  | noHandler hid _ _ hget _ => exact .called hid (.called hget (.refl _))
  | refused hid _ _ hget _ hcan => exact .called hid (.called hget (.called hcan (.refl _)))
  | repeated hid _ _ hget _ hcan hr => exact .called hid (.called hget (.called hcan hr.leads))

theorem Performed.perStep {config : Config} {context : Handle} {step : Step} {w : ω}
    {r : Ran ω (Ending × UInt32)} (h : step.Performed W config context w r) :
    PerStep r.events := by
  cases h with
  | unknown | interrupted | noHandler | refused => simp [Call.isPerStep]
  | repeated _ _ _ _ _ _ hr => simp [Call.isPerStep, hr.perStep]

theorem Performed.untellable {config : Config} {context : Handle} {step : Step} {w : ω}
    {r : Ran ω (Ending × UInt32)} (h : step.Performed W config context w r)
    (hr : r.value.1 = .halted .clockOverflow) :
    deadline? (W.now r.state) config.timeout = none := by
  cases h with
  | unknown | interrupted | noHandler | refused => cases hr
  | repeated _ _ _ _ _ _ h => exact h.untellable hr

/-- A step is interrupted by the flag alone. -/
theorem Performed.raised {config : Config} {context : Handle} {step : Step} {w : ω}
    {r : Ran ω (Ending × UInt32)} (h : step.Performed W config context w r)
    (hr : r.value.1 = .halted .interrupted) : W.raised r.state = true := by
  cases h with
  | unknown | noHandler | refused => cases hr
  | interrupted _ _ hraised => exact hraised
  | repeated _ _ _ _ _ _ h => exact h.raised hr

/-! ### What is recorded -/

/-- Unless the program breaks down, every ending is recorded. -/
theorem recordEnding_of_ne {e : Ending} (h : e ≠ .halted .clockOverflow) (step : Step)
    (elapsed : Duration) (attempts : UInt32) :
    step.recordEnding e elapsed attempts = step.record e.passes elapsed attempts := by
  unfold recordEnding
  split
  · exact absurd rfl h
  · rfl

/-- A step with a verdict has it on record. -/
theorem recordEnding_of_verdict {e : Ending} {v : Verdict} (h : .ok v = e.verdict) (step : Step)
    (elapsed : Duration) (attempts : UInt32) :
    step.recordEnding e elapsed attempts = step.record v.passed elapsed attempts := by
  rw [recordEnding_of_ne (Ending.ne_halted h _), Ending.passes, ← h]

theorem execute_of_perform {config : Config} {context : Handle} {step : Step} {w w₁ : ω}
    {e : Ending} {n : UInt32} {es : List Event}
    (h : step.perform W config context w = ⟨(e, n), es, w₁⟩) :
    step.execute W config context w =
      ⟨(e.verdict, step.recordEnding e ⟨W.now w₁ - W.now w⟩ n), es, w₁⟩ := by
  rw [execute, clock_bind, bind_of_eq h]
  dsimp only
  rw [clock_bind, pure_behind]

/-- What an execution gives is the verdict on the ending of the step, and its record. -/
theorem execute_performed (config : Config) (context : Handle) (step : Step) (w : ω) :
    ∃ e n es w₁, step.perform W config context w = ⟨(e, n), es, w₁⟩ ∧
      step.Performed W config context w ⟨(e, n), es, w₁⟩ ∧
      step.execute W config context w =
        ⟨(e.verdict, step.recordEnding e ⟨W.now w₁ - W.now w⟩ n), es, w₁⟩ := by
  have hp := step.perform_performed (W := W) config context w
  obtain ⟨⟨⟨e, n⟩, es, w₁⟩, hr⟩ : ∃ r, step.perform W config context w = r := ⟨_, rfl⟩
  rw [hr] at hp
  exact ⟨e, n, es, w₁, hr, hp, execute_of_perform hr⟩

theorem performed_of_execute {config : Config} {context : Handle} {step done : Step} {w w₁ : ω}
    {outcome : Except Halt Verdict} {es : List Event}
    (h : step.execute W config context w = ⟨(outcome, done), es, w₁⟩) :
    ∃ e n, step.Performed W config context w ⟨(e, n), es, w₁⟩ ∧ outcome = e.verdict ∧
      done = step.recordEnding e ⟨W.now w₁ - W.now w⟩ n := by
  obtain ⟨e, n, fs, w₂, -, hp, hrun⟩ := step.execute_performed (W := W) config context w
  cases hrun.symm.trans h
  exact ⟨e, n, hp, rfl, rfl⟩

end Step

end StepRunner
