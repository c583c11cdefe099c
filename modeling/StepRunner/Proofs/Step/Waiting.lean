import Mathlib.Algebra.Order.Floor.Div
import StepRunner.Proofs.Step.Interrupt
import StepRunner.Stub.Scripted

/-!
# Waiting for a result

A started test is polled until there is a result, an interrupt, or a poll without a result when time
is over. How many polls that takes, how long the naps between them are and what comes of them is
said by `Waited`, for any module and any clock (`runPolled_waits`).
-/

namespace StepRunner

open Stub (Call Handle)

variable {ω : Type} {W : World ω}

/-- Only a nap takes time, and no more than it has to. -/
structure World.OnlyNaps (W : World ω) : Prop where
  answer : ∀ c w, W.now (W.answer c w).2 = W.now w
  sleep : ∀ d w, 0 < d → W.now (W.sleep d w) = W.now w + d

theorem Stub.Script.world_onlyNaps (s : Script) : s.world.OnlyNaps where
  answer c p := (s.respond_now_raised c (note c p)).1
  sleep d p hd := by
    show p.now + max d 1 = p.now + d
    rw [Nat.max_eq_left hd]

theorem Config.pollInterval_pos (c : Config) (h : 1 ≤ c.pollIntervalMillis) :
    0 < c.pollInterval.nanos := by
  simp only [pollInterval, Duration.ofMillis]
  omega

/-- Of the time that is left, one interval is over. -/
theorem ceilDiv_succ_le {interval left rest : Nat} (hinterval : 0 < interval) (hleft : 0 < left)
    (hrest : rest ≤ left - interval) : rest ⌈/⌉ interval + 1 ≤ left ⌈/⌉ interval := by
  have hcover : left ≤ interval * (left ⌈/⌉ interval) := le_smul_ceilDiv hinterval
  obtain ⟨k, hk⟩ : ∃ k, left ⌈/⌉ interval = k + 1 := by
    refine Nat.exists_eq_succ_of_ne_zero fun hzero => ?_
    rw [hzero] at hcover
    omega
  rw [hk, Nat.mul_succ] at hcover
  rw [hk]
  exact Nat.succ_le_succ ((ceilDiv_le_iff_le_smul hinterval).mpr (by rw [smul_eq_mul]; omega))

namespace Step

/-- What comes of waiting from the state `w` on, for the time `timeout`. -/
structure Waited (W : World ω) (interval timeout : Nat) (w : ω) (r : Ran ω Attempt) : Prop where
  polls_le : polls r.events ≤ timeout ⌈/⌉ interval + 1
  /-- A nap is not empty, and it ends when time is over at the latest. -/
  naps : ∀ before nap after, r.events = before ++ .slept nap :: after →
    ∃ v, W.Leads w before v ∧ 0 < nap ∧ W.now v + nap ≤ W.now w + timeout
  result_iff : ∀ code, r.value = .result code ↔ .called .poll (some code) ∈ r.events
  /-- The first result that a poll finds ends the waiting. -/
  result : ∀ code, r.value = .result code →
    ∃ before, r.events = before ++ [.called .poll (some code)] ∧
      ∀ other, .called .poll (some other) ∉ before
  /-- Time is over only at a poll without a result, behind all naps. -/
  timedOut : r.value = .timedOut → W.now w + timeout ≤ W.now r.state ∧
    ∃ before, r.events = before ++ [.called .poll none]
  halted : ∀ h, r.value = .halted h → h = .interrupted ∧ W.raised r.state = true
  /-- If nothing but naps takes time, that poll is made when time is just over. -/
  onTime : W.OnlyNaps → r.value = .timedOut → W.now r.state = W.now w + timeout ∧
    ∃ before v, r.events = before ++ [.called .poll none] ∧ W.Leads w before v ∧
      W.now v = W.now w + timeout

section

variable {interval deadline : Nat} {w : ω} {r : Ran ω Attempt}

theorem Awaited.polls_le (h : Awaited W interval deadline w r) (hinterval : 0 < interval) :
    polls r.events ≤ (deadline - W.now w) ⌈/⌉ interval + 1 := by
  induction h with
  | ready | interrupted | timedOut => simp
  | @again nap w w₁ r ha _ hearly hnap _ ih =>
    have hanswer : W.now w ≤ W.now w₁ := by
      have hnow := W.now_answer .poll w
      rwa [ha] at hnow
    have hsleep := W.now_sleep nap w₁
    have hrest : deadline - W.now (W.sleep nap w₁) ≤ deadline - W.now w - interval := by omega
    have hstep := ceilDiv_succ_le hinterval (by omega) hrest
    simp
    omega

theorem Awaited.naps (h : Awaited W interval deadline w r) (hinterval : 0 < interval)
    {before after : List Event} {nap : Nat} (hevents : r.events = before ++ .slept nap :: after) :
    ∃ v, W.Leads w before v ∧ 0 < nap ∧ W.now v + nap ≤ deadline := by
  induction h generalizing before with
  | ready | interrupted | timedOut => simp [List.singleton_eq_append_iff] at hevents
  | @again nap' w w₁ r ha _ hearly hnap _ ih =>
    match before with
    | [] => cases hevents
    | [_] =>
      cases hevents
      exact ⟨w₁, .called ha (.refl _), by omega, by omega⟩
    | _ :: _ :: before =>
      simp only [Ran.behind_events, List.cons_append, List.nil_append, List.cons.injEq] at hevents
      obtain ⟨rfl, rfl, hrest⟩ := hevents
      obtain ⟨v, hleads, hpos, hle⟩ := ih hrest
      exact ⟨v, .called ha (.slept hleads), hpos, hle⟩

theorem Awaited.result_iff (h : Awaited W interval deadline w r) (code : Int) :
    r.value = .result code ↔ .called .poll (some code) ∈ r.events := by
  induction h with
  | ready => simp [eq_comm]
  | interrupted | timedOut => simp
  | again _ _ _ _ _ ih => simp [ih]

/-- The last event is a poll, and no poll before it finds a result. -/
theorem Awaited.last (h : Awaited W interval deadline w r) :
    ∃ before v answer, r.events = before ++ [.called .poll answer] ∧ W.Leads w before v ∧
      W.answer .poll v = (answer, r.state) ∧ (∀ code, .called .poll (some code) ∉ before) ∧
      (∀ code, r.value = .result code → answer = some code) ∧
      (r.value = .timedOut → answer = none ∧ deadline ≤ W.now r.state) := by
  induction h with
  | ready ha => exact ⟨[], _, _, rfl, .refl _, ha, nofun, by simp, nofun⟩
  | interrupted ha => exact ⟨[], _, _, rfl, .refl _, ha, nofun, nofun, nofun⟩
  | timedOut ha _ hlate =>
    exact ⟨[], _, _, rfl, .refl _, ha, nofun, nofun, fun _ => ⟨rfl, hlate⟩⟩
  | @again nap w w₁ r ha _ _ _ _ ih =>
    obtain ⟨before, v, answer, hevents, hleads, hlast, hnone, hresult, hlate⟩ := ih
    have hlonger : (r.behind [.called .poll none, .slept nap]).events =
        .called .poll none :: .slept nap :: before ++ [.called .poll answer] := by
      rw [Ran.behind_events, hevents]
      rfl
    exact ⟨_, v, answer, hlonger, .called ha (.slept hleads), hlast, by simpa using hnone, hresult,
      hlate⟩

/-- If nothing but naps takes time, waiting does not go on when time is over. -/
theorem Awaited.now_le (h : Awaited W interval deadline w r) (hinterval : 0 < interval)
    (hclock : W.OnlyNaps) (hw : W.now w ≤ deadline) : W.now r.state ≤ deadline := by
  have hpoll : ∀ {w w₁ : ω} {answer : Option Int}, W.answer .poll w = (answer, w₁) →
      W.now w₁ = W.now w := fun {w _ _} ha => by
    have hnow := hclock.answer .poll w
    rwa [ha] at hnow
  induction h with
  | ready ha | interrupted ha | timedOut ha => exact (hpoll ha).trans_le hw
  | @again nap w w₁ r ha _ hearly hnap _ ih =>
    have hsleep := hclock.sleep nap w₁ (by omega)
    exact ih (by omega)

theorem Awaited.waited {timeout : Nat} (h : Awaited W interval (W.now w + timeout) w r)
    (hinterval : 0 < interval) : Waited W interval timeout w r := by
  obtain ⟨before, v, answer, hevents, hleads, hlast, hnone, hresult, hlate⟩ := h.last
  exact {
    polls_le := by
      have hpolls := h.polls_le hinterval
      rwa [Nat.add_sub_cancel_left] at hpolls
    naps := fun _ _ _ => h.naps hinterval
    result_iff := h.result_iff
    result := fun code hcode => by
      obtain rfl := hresult code hcode
      exact ⟨before, hevents, hnone⟩
    timedOut := fun htimed => by
      obtain ⟨rfl, hover⟩ := hlate htimed
      exact ⟨hover, before, hevents⟩
    halted := fun halt hhalt => by
      cases halt with
      | interrupted => exact ⟨rfl, h.raised hhalt⟩
      | clockOverflow => exact absurd hhalt h.value_ne_overflow
    onTime := fun hclock htimed => by
      obtain ⟨rfl, hover⟩ := hlate htimed
      have hnow : W.now r.state = W.now w + timeout :=
        Nat.le_antisymm (h.now_le hinterval hclock (Nat.le_add_right _ _)) hover
      have hpoll := hclock.answer .poll v
      rw [hlast] at hpoll
      exact ⟨hnow, before, v, hevents, hleads, hpoll.symm.trans hnow⟩ }

end

/-- A test whose deadline can be told when it has started is waited for. -/
theorem runPolled_waits (W : World ω) (config : Config) (handler : Handle) (id : Int) (arg : String)
    (w : ω) (hinterval : 1 ≤ config.pollIntervalMillis)
    (htimeout : (deadline? (W.now (W.answer (.start handler id arg) w).2) config.timeout).isSome) :
    let r := runPolled W config handler id arg w
    ∃ token w₁ es, W.answer (.start handler id arg) w = (token, w₁) ∧
      r.events = .called (.start handler id arg) token :: es ∧
      Waited W config.pollInterval.nanos config.timeout.nanos w₁ { r with events := es } := by
  intro r
  obtain ⟨⟨token, w₁⟩, hstart⟩ : ∃ p, W.answer (.start handler id arg) w = p := ⟨_, rfl⟩
  rw [hstart] at htimeout
  obtain ⟨deadline, hdeadline⟩ := Option.isSome_iff_exists.mp htimeout
  obtain ⟨rest, hwaited, hrun⟩ := runPolled_of_deadline hstart hdeadline
  rw [eq_of_deadline? hdeadline] at hwaited
  have hr : r = rest.behind [.called (.start handler id arg) token] := hrun
  rw [hr]
  exact ⟨token, w₁, rest.events, hstart, rfl, hwaited.waited (config.pollInterval_pos hinterval)⟩

/-- A test without a result, with a timeout of a second, is polled at the start, when 0.4 s and
0.8 s are over, and when the second is over. -/
theorem runPolled_waits_a_second :
    let script : Stub.Script := { polls := [("", -1)] }
    let config : Config := { timeoutSeconds := 1, pollIntervalMillis := 400 }
    let r := runPolled script.world config ⟨8192⟩ 0 "" script.begin
    1 ≤ config.pollIntervalMillis ∧
      (deadline? (script.world.now (script.world.answer (.start ⟨8192⟩ 0 "") script.begin).2)
        config.timeout).isSome ∧
      script.world.OnlyNaps ∧ r.value = .timedOut ∧ polls r.events = 4 ∧
      script.world.now r.state = 1000000000 ∧
      ∃ token w₁ es, script.world.answer (.start ⟨8192⟩ 0 "") script.begin = (token, w₁) ∧
        r.events = .called (.start ⟨8192⟩ 0 "") token :: es ∧
        Waited script.world config.pollInterval.nanos config.timeout.nanos w₁
          { r with events := es } := by
  intro script config r
  have hinterval : 1 ≤ config.pollIntervalMillis := by decide
  have htimeout : (deadline?
      (script.world.now (script.world.answer (.start ⟨8192⟩ 0 "") script.begin).2)
      config.timeout).isSome := by decide +kernel
  exact ⟨hinterval, htimeout, script.world_onlyNaps, by decide +kernel, by decide +kernel,
    by decide +kernel,
    runPolled_waits script.world config ⟨8192⟩ 0 "" script.begin hinterval htimeout⟩

end Step

end StepRunner
