import StepRunner.Proofs.Step.Course

/-!
# The calls made for a step

A grammar of the calls that the execution of one step makes, with the answers they have: a name is
resolved, a handler is asked for and asked about, and every repetition gives it back once.
Whatever the stub module answers, an execution that does not break down follows the grammar
(`Performed.trace`), and if the step has a fault, its calls show which (`Performed.faultTrace`).
-/

namespace StepRunner

open Stub (Handle)

namespace Step

variable {ω : Type} {W : World ω}

/-! ### The grammar -/

namespace Setting

/-- The calls of a repetition before it gives back the handler, with its result if it has one. -/
inductive AttemptTrace (s : Setting) : Option Int → List Event → Prop where
  | blocking (code : Int) : s.config.isLongRunning s.step.name = false →
      AttemptTrace s (some code) [.called (.execute s.handler s.id s.step.configArg) code]
  | polled (token : Handle) (unready : Nat) (code : Int) :
      s.config.isLongRunning s.step.name = true →
      AttemptTrace s (some code)
        (.called (.start s.handler s.id s.step.configArg) token ::
          (List.replicate unready (.called .poll none) ++ [.called .poll (some code)]))
  | unanswered (token : Handle) (unready : Nat) : s.config.isLongRunning s.step.name = true →
      AttemptTrace s none
        (.called (.start s.handler s.id s.step.configArg) token ::
          List.replicate (unready + 1) (.called .poll none))

/-- The calls of a number of repetitions, with the result of the last. The others are passed. -/
inductive RepetitionTraces (s : Setting) : Nat → Option Int → List Event → Prop where
  | last {result : Option Int} {es : List Event} : s.AttemptTrace result es →
      RepetitionTraces s 1 result (es ++ [.called s.giveBack ()])
  | more {k : Nat} {code : Int} {result : Option Int} {es fs : List Event} :
      s.AttemptTrace (some code) es → 0 < code → RepetitionTraces s k result fs →
      RepetitionTraces s (k + 1) result (es ++ .called s.giveBack () :: fs)

end Setting

/-- The calls of one step. Unless it is `interrupted`, it stops behind its resolution only if its
name is unknown, and short of its last repetition only behind one that is not passed. -/
inductive Trace (config : Config) (context : Handle) (interrupted : Prop) (step : Step) :
    List Event → Prop where
  | unknown (id : Int) : id < 0 →
      Trace config context interrupted step [.called (.resolve step.name) id]
  | stopped (id : Int) : 0 ≤ id → interrupted →
      Trace config context interrupted step [.called (.resolve step.name) id]
  | noHandler (id : Int) (handler : Handle) : 0 ≤ id → handler.isNull = true →
      Trace config context interrupted step
        [.called (.resolve step.name) id, .called (.getHandler step.className context) handler]
  | refused (id : Int) (handler : Handle) : 0 ≤ id → handler.isNull = false →
      Trace config context interrupted step
        [.called (.resolve step.name) id, .called (.getHandler step.className context) handler,
          .called (.canExecute handler id) false]
  | repeated (id : Int) (handler : Handle) {k : Nat} {result : Option Int} {es : List Event} :
      0 ≤ id → handler.isNull = false →
      Setting.RepetitionTraces ⟨config, step, context, id, handler⟩ k result es →
      1 ≤ k → k ≤ 1 + step.repeats.toNat →
      (k < 1 + step.repeats.toNat → interrupted ∨ ∀ code, result = some code → code ≤ 0) →
      Trace config context interrupted step
        ([.called (.resolve step.name) id, .called (.getHandler step.className context) handler,
          .called (.canExecute handler id) true] ++ es)

/-- The calls of one step with a fault. -/
inductive FaultTrace (config : Config) (context : Handle) (step : Step) :
    StepFault → List Event → Prop where
  | unknown (id : Int) : id < 0 →
      FaultTrace config context step (.unknownTest step.name) [.called (.resolve step.name) id]
  | noHandler (id : Int) (handler : Handle) : 0 ≤ id → handler.isNull = true →
      FaultTrace config context step (.notExecutable step.className id)
        [.called (.resolve step.name) id, .called (.getHandler step.className context) handler]
  | refused (id : Int) (handler : Handle) : 0 ≤ id → handler.isNull = false →
      FaultTrace config context step (.notExecutable step.className id)
        [.called (.resolve step.name) id, .called (.getHandler step.className context) handler,
          .called (.canExecute handler id) false]
  | timedOut (id : Int) (handler : Handle) {k : Nat} {es : List Event} :
      0 ≤ id → handler.isNull = false →
      Setting.RepetitionTraces ⟨config, step, context, id, handler⟩ k none es →
      k ≤ 1 + step.repeats.toNat →
      FaultTrace config context step (.timedOut config.timeout.seconds)
        ([.called (.resolve step.name) id, .called (.getHandler step.className context) handler,
          .called (.canExecute handler id) true] ++ es)

theorem Trace.imp {config : Config} {context : Handle} {p q : Prop} {step : Step}
    {es : List Event} (h : step.Trace config context p es) (hpq : p → q) :
    step.Trace config context q es := by
  cases h with
  | unknown id hid => exact .unknown id hid
  | stopped id hid hp => exact .stopped id hid (hpq hp)
  | noHandler id handler hid hnull => exact .noHandler id handler hid hnull
  | refused id handler hid hnull => exact .refused id handler hid hnull
  | repeated id handler hid hnull hr hk hle hshort =>
    exact .repeated id handler hid hnull hr hk hle fun hlt => (hshort hlt).imp_left hpq

end Step

/-! ### Executions follow it -/

/-- The result a repetition came to. -/
def Attempt.result? : Attempt → Option Int
  | .result code => some code
  | .timedOut | .halted _ => none

namespace Step

theorem Awaited.trace {interval deadline : Nat} {w : ω} {r : Ran ω Attempt}
    (h : Awaited W interval deadline w r) :
    (∃ unready code, r.value.result? = some code ∧ exchanges r.events =
      List.replicate unready (.called .poll none) ++ [.called .poll (some code)]) ∨
    ∃ unready, r.value.result? = none ∧
      exchanges r.events = List.replicate (unready + 1) (.called .poll none) := by
  induction h with
  | @ready code => exact .inl ⟨0, code, rfl, rfl⟩
  | interrupted | timedOut => exact .inr ⟨0, rfl, rfl⟩
  | again _ _ _ _ _ ih =>
    obtain ⟨n, code, hv, he⟩ | ⟨n, hv, he⟩ := ih
    · refine .inl ⟨n + 1, code, hv, ?_⟩
      simp [he, List.replicate_succ]
    · refine .inr ⟨n + 1, hv, ?_⟩
      simp [he, List.replicate_succ]

namespace Setting

theorem Attempted.trace {s : Setting} {w : ω} {r : Ran ω Attempt} (h : s.Attempted W w r)
    (hr : r.value ≠ .halted .clockOverflow) :
    s.AttemptTrace r.value.result? (exchanges r.events) := by
  cases h with
  | @blocking code _ hshort => exact .blocking code hshort
  | unlimited => exact absurd rfl hr
  | @polled token _ _ _ hlong _ _ ha =>
    rw [Ran.behind_value, Ran.behind_events, exchanges_append]
    obtain ⟨n, code, hv, he⟩ | ⟨n, hv, he⟩ := ha.trace
    · rw [he, hv]
      exact .polled token n code hlong
    · rw [he, hv]
      exact .unanswered token n hlong

/-- A step that ends with repetitions to come is interrupted, or its last one is not passed. -/
theorem ending?_short {s : Setting} {left : Nat} {a : Attempt} {e : Ending}
    (h : s.ending? left a = some e) (hleft : left ≠ 0) :
    e = .halted .interrupted ∨ ∀ code, a.result? = some code → code ≤ 0 := by
  match a with
  | .halted .interrupted => exact .inl (by cases h; rfl)
  | .timedOut => exact .inr nofun
  | .result code =>
    refine .inr fun _ hc => ?_
    cases hc
    dsimp only [ending?] at h
    split at h
    · next hlast => exact hlast.resolve_left hleft
    · cases h

/-- A step has no result because its last repetition has none. -/
theorem ending?_failed {s : Setting} {left : Nat} {a : Attempt} {f : StepFault}
    (h : s.ending? left a = some (.failed f)) :
    f = .timedOut s.config.timeout.seconds ∧ a.result? = none := by
  unfold ending? at h
  split at h
  · cases h
  · cases h
  · cases h
    exact ⟨rfl, rfl⟩
  · split at h <;> cases h

theorem Repeated.trace {s : Setting} {left : Nat} {n : UInt32} {w : ω}
    {r : Ran ω (Ending × UInt32)} (h : s.Repeated W left n w r)
    (hr : r.value.1 ≠ .halted .clockOverflow) :
    ∃ k result, s.RepetitionTraces k result (exchanges r.events) ∧ 1 ≤ k ∧ k ≤ 1 + left ∧
      (k < 1 + left →
        r.value.1 = .halted .interrupted ∨ ∀ code, result = some code → code ≤ 0) ∧
      (∀ f, r.value.1 = .failed f → f = .timedOut s.config.timeout.seconds ∧ result = none) := by
  induction h with
  | broke => exact absurd rfl hr
  | @last left _ _ _ _ a es e ha he _ =>
    have htrace := ha.trace (by rintro ⟨⟩; cases he)
    refine ⟨1, a.result?, ?_, by omega, by omega, fun hlt => ending?_short he (by omega),
      fun f hf => ending?_failed (he.trans (congrArg some hf))⟩
    rw [exchanges_append]
    exact .last htrace
  | @interrupted left _ code _ _ _ _ es ha hcode _ _ _ =>
    refine ⟨1, some code, ?_, by omega, by omega, fun _ => .inl rfl, nofun⟩
    rw [exchanges_append]
    exact .last (ha.trace (by simp))
  | again ha hcode _ _ _ _ ih =>
    obtain ⟨k, result, htrace, hk, hle, hshort, hfailed⟩ := ih hr
    refine ⟨k + 1, result, ?_, by omega, by omega, fun hlt => hshort (by omega), hfailed⟩
    have hmore := RepetitionTraces.more (ha.trace (by simp)) hcode htrace
    simpa using hmore

end Setting

theorem Performed.trace {config : Config} {context : Handle} {step : Step} {w : ω}
    {r : Ran ω (Ending × UInt32)} (h : step.Performed W config context w r)
    (hr : r.value.1 ≠ .halted .clockOverflow) :
    step.Trace config context (r.value.1 = .halted .interrupted) (exchanges r.events) := by
  cases h with
  | unknown _ hid => exact .unknown _ hid
  | interrupted _ hid _ => exact .stopped _ hid rfl
  | noHandler _ hid _ _ hnull => exact .noHandler _ _ hid hnull
  | refused _ hid _ _ hnull _ => exact .refused _ _ hid hnull
  | repeated _ hid _ _ hnull _ hrep =>
    obtain ⟨k, result, htrace, hk, hle, hshort, -⟩ := hrep.trace hr
    exact .repeated _ _ hid hnull htrace hk hle hshort

theorem Performed.faultTrace {config : Config} {context : Handle} {step : Step} {w : ω}
    {r : Ran ω (Ending × UInt32)} (h : step.Performed W config context w r) {f : StepFault}
    (hr : r.value.1 = .failed f) : step.FaultTrace config context f (exchanges r.events) := by
  cases h with
  | unknown _ hid =>
    cases hr
    exact .unknown _ hid
  | interrupted => cases hr
  | noHandler _ hid _ _ hnull =>
    cases hr
    exact .noHandler _ _ hid hnull
  | refused _ hid _ _ hnull _ =>
    cases hr
    exact .refused _ _ hid hnull
  | repeated _ hid _ _ hnull _ hrep =>
    rw [Ran.behind_value] at hr
    obtain ⟨k, result, htrace, -, hle, -, hfailed⟩ := hrep.trace (by rw [hr]; nofun)
    obtain ⟨rfl, rfl⟩ := hfailed f hr
    exact .timedOut _ _ hid hnull htrace hle

end Step

end StepRunner
