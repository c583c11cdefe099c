import StepRunner.Proofs.Run.Course
import StepRunner.Proofs.Step.Custody
import StepRunner.Stub.Scripted

/-!
# Runs that break down

A run breaks down when a test is started whose deadline lies beyond the last moment that can be
told, and in no other case; the repetition that began with this start is not brought to its end,
every other one is (`into_breaks_down`). A timeout that is accepted can be long enough for that
(`validated_run_breaks_down`).
-/

namespace StepRunner

open Stub (Call Handle)

variable {ω : Type} {W : World ω} {timeout : Duration} {context : Handle} {w w₁ : ω}
  {es fs : List Event}

/-! ### Starts whose deadline cannot be told -/

/-- Among the events from the state `w` on is the start of a test whose deadline lies beyond the
last moment that can be told. -/
def World.StartsBeyond (W : World ω) (timeout : Duration) (w : ω) (es : List Event) : Prop :=
  ∃ before handler id arg token after v,
    es = before ++ .called (.start handler id arg) token :: after ∧
      W.Leads w (before ++ [.called (.start handler id arg) token]) v ∧
      deadline? (W.now v) timeout = none

theorem World.startsBeyond_append (hes : W.Leads w es w₁) :
    W.StartsBeyond timeout w (es ++ fs) ↔
      W.StartsBeyond timeout w es ∨ W.StartsBeyond timeout w₁ fs := by
  constructor
  · rintro ⟨before, handler, id, arg, token, after, v, hevents, hleads, hnone⟩
    rcases append_eq_append_cons hevents with ⟨rest, hfirst, -⟩ | ⟨here, rfl, hsecond⟩
    · exact .inl ⟨before, handler, id, arg, token, rest, v, hfirst, hleads, hnone⟩
    · rw [List.append_assoc] at hleads
      obtain ⟨w₂, h₁, h₂⟩ := hleads.of_append
      obtain rfl := hes.unique h₁
      exact .inr ⟨here, handler, id, arg, token, after, v, hsecond, h₂, hnone⟩
  · rintro (⟨before, handler, id, arg, token, after, v, rfl, hleads, hnone⟩ |
      ⟨before, handler, id, arg, token, after, v, rfl, hleads, hnone⟩)
    · exact ⟨before, handler, id, arg, token, after ++ fs, v, by simp, hleads, hnone⟩
    · refine ⟨es ++ before, handler, id, arg, token, after, v, by simp, ?_, hnone⟩
      rw [List.append_assoc]
      exact hes.trans hleads

theorem World.startsBeyond_start {handler token : Handle} {id : Int} {arg : String}
    (ha : W.answer (.start handler id arg) w = (token, w₁)) :
    W.StartsBeyond timeout w [.called (.start handler id arg) token] ↔
      deadline? (W.now w₁) timeout = none := by
  have hstart : W.Leads w [.called (.start handler id arg) token] w₁ := .called ha (.refl _)
  constructor
  · rintro ⟨before, _, _, _, _, after, v, hevents, hleads, hnone⟩
    obtain ⟨rfl, heq⟩ := List.singleton_eq_append_iff.mp hevents |>.resolve_right (by simp)
    cases heq
    obtain rfl := hstart.unique hleads
    exact hnone
  · exact fun hnone => ⟨[], handler, id, arg, token, [], w₁, rfl, hstart, hnone⟩

theorem World.not_startsBeyond (h : ∀ handler id arg, .start handler id arg ∉ callsOf es) :
    ¬ W.StartsBeyond timeout w es := by
  rintro ⟨before, handler, id, arg, token, after, v, hevents, -⟩
  exact h handler id arg (mem_callsOf hevents)

/-! ### Repetitions that come to their end -/

/-- Behind each call that begins a repetition the module is polled at most, until it gets the
handler back. -/
def AllReleased (context : Handle) (es : List Event) : Prop :=
  ∀ before (c : Call) (a : c.Answer) after handler, es = before ++ .called c a :: after →
    c.begins? = some handler → ∃ during className rest,
      after = during ++ .called (.release className handler context) () :: rest ∧
        ∀ c ∈ callsOf during, c = .poll

theorem allReleased_of_begun (h : begun es = []) : AllReleased context es :=
  fun _ c _ _ _ hevents hc => by
    have hnone := List.filterMap_eq_nil_iff.mp h c (mem_callsOf hevents)
    rw [hc] at hnone
    cases hnone

theorem AllReleased.append (hes : AllReleased context es) (hfs : AllReleased context fs) :
    AllReleased context (es ++ fs) := fun before c a after handler hevents hc => by
  rcases append_eq_append_cons hevents with ⟨rest, hfirst, rfl⟩ | ⟨here, -, hsecond⟩
  · obtain ⟨during, className, behind, rfl, hpolls⟩ := hes _ c a _ handler hfirst hc
    exact ⟨during, className, behind ++ fs, by simp, hpolls⟩
  · exact hfs _ c a _ handler hsecond hc

/-- From the state `w` on every deadline can be told, and every repetition comes to its end. -/
structure World.Whole (W : World ω) (timeout : Duration) (context : Handle) (w : ω)
    (es : List Event) : Prop where
  told : ¬ W.StartsBeyond timeout w es
  released : AllReleased context es

theorem World.Whole.append (hes : W.Whole timeout context w es) (hleads : W.Leads w es w₁)
    (hfs : W.Whole timeout context w₁ fs) : W.Whole timeout context w (es ++ fs) where
  told h := ((World.startsBeyond_append hleads).mp h).elim hes.told hfs.told
  released := hes.released.append hfs.released

theorem World.whole_of_begun (h : begun es = []) : W.Whole timeout context w es where
  told := World.not_startsBeyond fun handler id arg hmem => by
    have hnone := List.filterMap_eq_nil_iff.mp h _ hmem
    cases hnone
  released := allReleased_of_begun h

/-- Events that are whole unless they have `broken` off behind the start of a test whose deadline
cannot be told. -/
structure World.Breakdown (W : World ω) (timeout : Duration) (context : Handle) (broken : Prop)
    (w : ω) (es : List Event) : Prop where
  whole : ¬ broken → W.Whole timeout context w es
  cut : broken → ∃ before handler id arg token v,
    es = before ++ [.called (.start handler id arg) token] ∧ AllReleased context before ∧
      W.Leads w es v ∧ deadline? (W.now v) timeout = none

namespace World.Breakdown

variable {broken : Prop}

theorem of_whole (h : W.Whole timeout context w es) (hb : ¬ broken) :
    W.Breakdown timeout context broken w es :=
  ⟨fun _ => h, fun hbroken => absurd hbroken hb⟩

theorem prepend (hes : W.Whole timeout context w es) (hleads : W.Leads w es w₁)
    (hfs : W.Breakdown timeout context broken w₁ fs) :
    W.Breakdown timeout context broken w (es ++ fs) where
  whole hb := hes.append hleads (hfs.whole hb)
  cut hb := by
    obtain ⟨before, handler, id, arg, token, v, hevents, hreleased, hv, hnone⟩ := hfs.cut hb
    exact ⟨es ++ before, handler, id, arg, token, v, by rw [hevents, List.append_assoc],
      hes.released.append hreleased, hleads.trans hv, hnone⟩

theorem broken_iff (h : W.Breakdown timeout context broken w es) :
    broken ↔ W.StartsBeyond timeout w es := by
  constructor
  · intro hb
    obtain ⟨before, handler, id, arg, token, v, hevents, -, hv, hnone⟩ := h.cut hb
    exact ⟨before, handler, id, arg, token, [], v, hevents, hevents ▸ hv, hnone⟩
  · intro hbeyond
    by_contra hb
    exact (h.whole hb).told hbeyond

end World.Breakdown

namespace Step

/-! ### Repetitions of a step -/

namespace Setting

variable {s : Setting}

/-- A repetition that breaks down does so behind its start. -/
theorem Attempted.events_of_overflow {r : Ran ω Attempt} (h : s.Attempted W w r)
    (hr : r.value = .halted .clockOverflow) :
    ∃ token, r.events = [.called (.start s.handler s.id s.step.configArg) token] := by
  cases h with
  | blocking => cases hr
  | unlimited => exact ⟨_, rfl⟩
  | polled _ _ _ hpolled => exact absurd hr hpolled.value_ne_overflow

theorem Attempted.not_startsBeyond {r : Ran ω Attempt} (h : s.Attempted W w r)
    (hr : r.value ≠ .halted .clockOverflow) :
    ¬ W.StartsBeyond s.config.timeout w r.events := by
  cases h with
  | blocking => exact World.not_startsBeyond (by simp [callsOf, Event.call?])
  | unlimited => exact absurd rfl hr
  | @polled _ _ _ r' _ ha hd hpolled =>
    have hnostart : ∀ handler id arg, .start handler id arg ∉ callsOf r'.events :=
      fun _ _ _ hmem => by cases hpolled.calls_eq_poll _ hmem
    rw [Ran.behind_events, World.startsBeyond_append (.called ha (.refl _)),
      World.startsBeyond_start ha, hd]
    rintro (hnone | hbeyond)
    · cases hnone
    · exact World.not_startsBeyond hnostart hbeyond

theorem Attempted.allReleased {v : Attempt} {es : List Event} {w₁ : ω}
    (h : s.Attempted W w ⟨v, es, w₁⟩) : AllReleased s.context (es ++ [.called s.giveBack ()]) := by
  obtain ⟨c₀, a₀, fs, hopen, hbegins, hpolls⟩ := h.opening
  intro before c a after handler hevents hc
  dsimp only at hopen
  subst hopen
  cases before with
  | nil =>
    cases hevents
    obtain rfl := Option.some.inj (hbegins.symm.trans hc)
    exact ⟨fs, s.step.className, [], rfl, hpolls⟩
  | cons e before =>
    obtain ⟨-, hrest⟩ := List.cons.inj hevents
    have hquiet : begun (fs ++ [.called s.giveBack ()]) = [] := by
      simp [begun_of_polls hpolls, Call.begins?]
    exact allReleased_of_begun hquiet before c a after handler hrest hc

/-- A repetition that does not break down is whole when its handler is given back. -/
theorem Attempted.whole {v : Attempt} {es : List Event} {w₁ : ω} (h : s.Attempted W w ⟨v, es, w₁⟩)
    (hv : v ≠ .halted .clockOverflow) :
    W.Whole s.config.timeout s.context w (es ++ [.called s.giveBack ()]) where
  told := by
    rw [World.startsBeyond_append h.leads]
    rintro (hbeyond | hbeyond)
    · exact h.not_startsBeyond hv hbeyond
    · exact World.not_startsBeyond (by simp [callsOf, Event.call?]) hbeyond
  released := h.allReleased

theorem Repeated.breakdown {left : Nat} {n : UInt32} {r : Ran ω (Ending × UInt32)}
    (h : s.Repeated W left n w r) :
    W.Breakdown s.config.timeout s.context (r.value.1 = .halted .clockOverflow) w r.events := by
  have hpause : ∀ {code : Int} {es : List Event} {w w₁ w₂ : ω},
      s.Attempted W w ⟨.result code, es, w₁⟩ → W.answer s.giveBack w₁ = ((), w₂) →
      W.Whole s.config.timeout s.context w
        (es ++ [.called s.giveBack (), .slept s.config.repeatPause.nanos]) :=
    fun {_ es _ _ w₂} ha hback => by
      have hslept : W.Whole s.config.timeout s.context w₂ [.slept s.config.repeatPause.nanos] :=
        World.whole_of_begun rfl
      have hback' := (ha.whole (by simp)).append (ha.leads.trans (.called hback (.refl _))) hslept
      rwa [List.append_assoc] at hback'
  induction h with
  | broke ha =>
    obtain ⟨token, hstart⟩ := ha.events_of_overflow rfl
    exact ⟨fun hb => absurd rfl hb, fun _ => ⟨[], _, _, _, token, _, hstart,
      allReleased_of_begun rfl, ha.leads, ha.untellable rfl⟩⟩
  | last ha he _ =>
    refine .of_whole (ha.whole ?_) (ending?_ne_overflow he)
    rintro rfl
    cases he
  | interrupted ha _ hback => exact .of_whole (hpause ha hback) (by simp)
  | again ha _ hback hnap _ _ ih => exact .prepend (hpause ha hback) (ha.leads_pause hback hnap) ih

end Setting

theorem Performed.breakdown {config : Config} {step : Step} {r : Ran ω (Ending × UInt32)}
    (h : step.Performed W config context w r) :
    W.Breakdown config.timeout context (r.value.1 = .halted .clockOverflow) w r.events := by
  cases h with
  | unknown | interrupted | noHandler | refused =>
    exact .of_whole (World.whole_of_begun rfl) (by simp)
  | repeated hid _ _ hget _ hcan hrep =>
    exact .prepend (World.whole_of_begun rfl)
      (.called hid (.called hget (.called hcan (.refl _)))) hrep.breakdown

end Step

namespace Run

open Step (performed_of_execute)

theorem Course.breakdown {config : Config} {steps : List Step} {summary : Summary}
    {r : Ran ω RunResult} (h : Course W config context steps summary w r) :
    W.Breakdown config.timeout context (r.value.outcome = .error (.halted .clockOverflow)) w
      r.events := by
  induction h with
  | done | stopped => exact .of_whole (World.whole_of_begun rfl) (by simp)
  | halted _ hrun =>
    obtain ⟨e, n, hp, he, -⟩ := performed_of_execute hrun
    have hhalted := Ending.verdict_eq_error.mp he.symm
    have hbreak := hp.breakdown
    dsimp only at hbreak
    simpa [hhalted] using hbreak
  | aborted _ hrun =>
    obtain ⟨e, n, hp, he, -⟩ := performed_of_execute hrun
    exact .of_whole (hp.breakdown.whole (Ending.ne_halted he _)) (by simp)
  | next _ hrun _ _ ih =>
    obtain ⟨e, n, hp, he, -⟩ := performed_of_execute hrun
    exact .prepend (hp.breakdown.whole (Ending.ne_halted he _)) hp.leads ih

/-- A run breaks down when, and only when, it starts a test whose deadline cannot be told. Then this
start is the last that it does, and the handler is not given back. Every other repetition of any run
comes to its end. -/
theorem into_breaks_down (W : World ω) (config : Config) (context : Handle) (steps : List Step)
    (summary : Summary) (w : ω) :
    let r := into W config context steps summary w
    let broken := r.value.outcome = .error (.halted .clockOverflow)
    (broken ↔ W.StartsBeyond config.timeout w r.events) ∧
      (broken → ∃ before handler id arg token,
        r.events = before ++ [.called (.start handler id arg) token] ∧
          AllReleased context before) ∧
      (¬ broken → AllReleased context r.events) ∧
      ((deadline? (W.now r.state) config.timeout).isSome → ¬ broken) := by
  intro r broken
  have hcourse : Course W config context steps summary w r :=
    into_course config context steps summary w
  have hbreak := hcourse.breakdown
  refine ⟨hbreak.broken_iff, fun hb => ?_, fun hb => (hbreak.whole hb).released,
    hcourse.ne_overflow⟩
  obtain ⟨before, handler, id, arg, token, -, hevents, hreleased, -⟩ := hbreak.cut hb
  exact ⟨before, handler, id, arg, token, hevents, hreleased⟩

/-- The longest timeouts are accepted, and with one of them a run breaks down. -/
theorem validated_run_breaks_down :
    let config : Config := { timeoutSeconds := 9223372036854775808 }
    let step : Step :=
      ⟨"1__A__I__SaveTillDone", "A", "I", "SaveTillDone", none, 0, false, .zero, 0⟩
    let script : Stub.Script := {}
    let r := into script.world config ⟨4096⟩ [step] (.start ⟨0, 0, 0⟩ 1) script.begin
    config.validate = .ok () ∧ r.value.outcome = .error (.halted .clockOverflow) ∧
      (begun r.events).length = 1 ∧ releases r.events = [] := by
  decide +kernel

end Run

end StepRunner
