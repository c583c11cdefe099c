import StepRunner.Proofs.Step.Course
import StepRunner.Stub.Scripted

/-!
# Polling and blocking

A long-running step is started and polled for its result, any other step is executed. If every
repetition has the same result in both ways, if it is found in time and if nothing interrupts the
step, then the verdict is the same, the record is the same but for its time, and so are the calls, a
start with its polls being read as the execution it stands for (`execute_polled_eq_blocking`).
-/

namespace StepRunner

open Stub (Call Handle)

def Config.withMarkers (c : Config) (markers : List String) : Config :=
  { c with longRunningMarkers := markers }

variable {ω : Type} {W : World ω}

theorem World.Leads.low {w w' : ω} {es : List Event} (h : W.Leads w es w')
    (hlow : W.raised w' = false) : W.raised w = false :=
  Bool.eq_false_iff.mpr fun hw => Bool.eq_false_iff.mp hlow (h.raised hw)

/-! ### Reading polls as an execution -/

/-- Calls that only a long-running step makes. -/
def Stub.Call.isPolling : Call → Bool
  | .start _ _ _ | .poll => true
  | _ => false

/-- Calls with their answers, each start together with the polls up to its result being read as the
execution that has this result. -/
inductive ReadsAs : List Event → List Event → Prop where
  | nil : ReadsAs [] []
  | polled {handler token : Handle} {id code : Int} {arg : String} {unready : Nat}
      {es fs : List Event} : ReadsAs es fs →
      ReadsAs (.called (.start handler id arg) token ::
          (List.replicate unready (.called .poll none) ++ .called .poll (some code) :: es))
        (.called (.execute handler id arg) code :: fs)
  | other {c : Call} {a : c.Answer} {es fs : List Event} : c.isPolling = false → ReadsAs es fs →
      ReadsAs (.called c a :: es) (.called c a :: fs)

namespace Step

/-! ### Results found by polling -/

/-- Polling from `w` on finds the result `code` while there is time for a poll, and leaves the
surroundings in `w'`. -/
inductive Polled (W : World ω) (interval deadline : Nat) : ω → Int → ω → Prop where
  | ready {code : Int} {w w₁ : ω} : W.now w ≤ deadline → W.answer .poll w = (some code, w₁) →
      Polled W interval deadline w code w₁
  | unready {code : Int} {w w₁ w₂ : ω} : W.answer .poll w = (none, w₁) →
      Polled W interval deadline (W.sleep (min interval (deadline - W.now w₁)) w₁) code w₂ →
      Polled W interval deadline w code w₂

theorem Polled.now_le {interval deadline : Nat} {w w' : ω} {code : Int}
    (h : Polled W interval deadline w code w') : W.now w ≤ deadline := by
  induction h with
  | ready hle => exact hle
  | @unready code w w₁ w₂ ha _ ih =>
    have hanswer := W.now_answer .poll w
    have hsleep := W.now_sleep (min interval (deadline - W.now w₁)) w₁
    rw [ha] at hanswer
    dsimp only at hanswer
    omega

/-- Unless it is interrupted, waiting finds the result that polling finds. -/
theorem Polled.awaited {interval deadline : Nat} {w w' : ω} {code : Int} {r : Ran ω Attempt}
    (h : Polled W interval deadline w code w') (hr : Awaited W interval deadline w r)
    (hlow : W.raised r.state = false) :
    r.value = .result code ∧ r.state = w' ∧ ∃ unready, exchanges r.events =
      List.replicate unready (.called .poll none) ++ [.called .poll (some code)] := by
  induction h generalizing r with
  | ready _ ha =>
    cases hr with
    | ready hb =>
      obtain ⟨hcode, rfl⟩ := Prod.mk.inj (ha.symm.trans hb)
      obtain rfl := Option.some.inj hcode
      exact ⟨rfl, rfl, 0, rfl⟩
    | interrupted hb | timedOut hb | again hb => cases ha.symm.trans hb
  | unready ha hrest ih =>
    cases hr with
    | ready hb => cases ha.symm.trans hb
    | interrupted hb hraised =>
      rw [hraised] at hlow
      cases hlow
    | timedOut hb _ hlate =>
      -- The next poll would come behind the deadline.
      obtain ⟨-, rfl⟩ := Prod.mk.inj (ha.symm.trans hb)
      have hnext := Nat.lt_of_lt_of_le (W.now_lt_nap ha _) hrest.now_le
      omega
    | again hb _ _ hnap hr =>
      obtain ⟨-, rfl⟩ := Prod.mk.inj (ha.symm.trans hb)
      subst hnap
      obtain ⟨hvalue, hstate, unready, hevents⟩ := ih hr hlow
      refine ⟨hvalue, hstate, unready + 1, ?_⟩
      simp [hevents, List.replicate_succ]

namespace Setting

variable {s : Setting}

/-- A test that is started in `w` is found ready with the result `code` in time. -/
def ComesTo (W : World ω) (s : Setting) (w : ω) (code : Int) (w' : ω) : Prop :=
  ∃ token w₁ deadline, W.answer (.start s.handler s.id s.step.configArg) w = (token, w₁) ∧
    deadline? (W.now w₁) s.config.timeout = some deadline ∧
    Polled W s.config.pollInterval.nanos deadline w₁ code w'

/-- The surroundings in which the next repetition begins if one is over in `w`. -/
def afterwards (W : World ω) (s : Setting) (w : ω) : ω :=
  W.sleep s.config.repeatPause.nanos (W.answer s.giveBack w).2

/-- The repetitions from now on have the same results, whether they are executed from `u` on or
started and polled from `v` on; `left` more are to come while results are positive. -/
inductive SameResults (W : World ω) (s : Setting) : Nat → ω → ω → Prop where
  | last {left : Nat} {code : Int} {u u₁ v v₁ : ω} :
      W.answer (.execute s.handler s.id s.step.configArg) u = (code, u₁) →
      s.ComesTo W v code v₁ → left = 0 ∨ code ≤ 0 → SameResults W s left u v
  | more {left : Nat} {code : Int} {u u₁ v v₁ : ω} :
      W.answer (.execute s.handler s.id s.step.configArg) u = (code, u₁) →
      s.ComesTo W v code v₁ → 0 < code →
      SameResults W s left (s.afterwards W u₁) (s.afterwards W v₁) →
      SameResults W s (left + 1) u v

def withMarkers (s : Setting) (markers : List String) : Setting :=
  { s with config := s.config.withMarkers markers }

/-! ### One repetition in both ways -/

/-- A repetition from `w` on that is not interrupted has the result `code`, leaves `w'` behind and
makes calls of the form `calls`. -/
def Results (W : World ω) (s : Setting) (w : ω) (code : Int) (w' : ω)
    (calls : List Event → Prop) : Prop :=
  ∀ r, s.Attempted W w r → W.raised r.state = false →
    r.value = .result code ∧ r.state = w' ∧ calls (exchanges r.events)

theorem results_of_blocking {markers : List String} {w w₁ : ω} {code : Int}
    (hshort : (s.config.withMarkers markers).isLongRunning s.step.name = false)
    (ha : W.answer (.execute s.handler s.id s.step.configArg) w = (code, w₁)) :
    (s.withMarkers markers).Results W w code w₁ fun es =>
      es = [.called (.execute s.handler s.id s.step.configArg) code] := by
  intro r hr _
  cases hr with
  | blocking _ hb =>
    obtain ⟨rfl, rfl⟩ := Prod.mk.inj (ha.symm.trans hb)
    exact ⟨rfl, rfl, rfl⟩
  | unlimited hlong | polled hlong => cases hshort.symm.trans hlong

theorem ComesTo.results {markers : List String} {w w' : ω} {code : Int}
    (h : s.ComesTo W w code w')
    (hlong : (s.config.withMarkers markers).isLongRunning s.step.name = true) :
    (s.withMarkers markers).Results W w code w' fun es => ∃ token unready,
      es = .called (.start s.handler s.id s.step.configArg) token ::
        (List.replicate unready (.called .poll none) ++ [.called .poll (some code)]) := by
  obtain ⟨token, w₁, deadline, hstart, hdeadline, hpolled⟩ := h
  intro r hr hlow
  cases hr with
  | blocking hshort => cases hlong.symm.trans hshort
  | unlimited _ hb hnone =>
    obtain ⟨-, rfl⟩ := Prod.mk.inj (hstart.symm.trans hb)
    cases hdeadline.symm.trans hnone
  | polled _ hb hsome hr =>
    obtain ⟨rfl, rfl⟩ := Prod.mk.inj (hstart.symm.trans hb)
    obtain rfl := Option.some.inj (hdeadline.symm.trans hsome)
    obtain ⟨hvalue, hstate, unready, hevents⟩ := hpolled.awaited hr hlow
    refine ⟨hvalue, hstate, token, unready, ?_⟩
    rw [Ran.behind_events, List.singleton_append, exchanges_called, hevents]
    rfl

/-- Repetitions that are not interrupted end with the result of the first, or go on behind it. -/
theorem Repeated.cases_result {left : Nat} {n : UInt32} {w w' : ω} {code : Int}
    {calls : List Event → Prop} {r : Ran ω (Ending × UInt32)} (h : s.Repeated W left n w r)
    (hlow : W.raised r.state = false) (hfirst : s.Results W w code w' calls) :
    ∃ es, calls es ∧
      ((left = 0 ∨ code ≤ 0) ∧ r.value = (.result code, n + 1) ∧
          exchanges r.events = es ++ [.called s.giveBack ()] ∨
        ∃ more r', left = more + 1 ∧ 0 < code ∧ s.Repeated W more (n + 1) (s.afterwards W w') r' ∧
          r.value = r'.value ∧ r.state = r'.state ∧
          exchanges r.events = es ++ .called s.giveBack () :: exchanges r'.events) := by
  cases h with
  | broke ha => cases (hfirst _ ha hlow).1
  | last ha he hback =>
    have hlater : W.Leads _ [.called s.giveBack ()] _ := .called hback (.refl _)
    obtain ⟨hvalue, -, hcalls⟩ := hfirst _ ha (hlater.low hlow)
    dsimp only at hvalue
    subst hvalue
    refine ⟨_, hcalls, .inl ?_⟩
    unfold ending? at he
    dsimp only at he
    split at he
    · next hlast =>
      cases he
      exact ⟨hlast, rfl, exchanges_append _ _⟩
    · cases he
  | interrupted _ _ _ _ hraised =>
    rw [hraised] at hlow
    cases hlow
  | @again more _ _ _ w₁ _ w₃ es r' ha hcode hback hnap hraised hr =>
    have hnext : s.afterwards W w₁ = w₃ := by rw [afterwards, hback, hnap]
    have hlater : W.Leads w₁ [.called s.giveBack (), .slept s.config.repeatPause.nanos] w₃ := by
      subst hnap
      exact .called hback (.slept (.refl _))
    obtain ⟨hvalue, hstate, hcalls⟩ := hfirst _ ha (hlater.low hraised)
    dsimp only at hvalue hstate
    cases hvalue
    subst hstate
    refine ⟨_, hcalls, .inr ⟨more, r', rfl, hcode, hnext ▸ hr, rfl, rfl, ?_⟩⟩
    simp

/-! ### All repetitions in both ways -/

/-- Both ways go through the same repetitions. -/
theorem SameResults.repeated {long short : List String} {left : Nat} {n : UInt32} {u v : ω}
    {b p : Ran ω (Ending × UInt32)} (h : s.SameResults W left u v)
    (hlong : (s.config.withMarkers long).isLongRunning s.step.name = true)
    (hshort : (s.config.withMarkers short).isLongRunning s.step.name = false)
    (hb : (s.withMarkers short).Repeated W left n u b)
    (hp : (s.withMarkers long).Repeated W left n v p)
    (hblow : W.raised b.state = false) (hplow : W.raised p.state = false) :
    p.value = b.value ∧ (∃ code, b.value.1 = .result code) ∧
      ReadsAs (exchanges p.events) (exchanges b.events) := by
  induction h generalizing n b p with
  | last hexec hcomes hlast =>
    obtain ⟨es, rfl, hbcase⟩ := hb.cases_result hblow (results_of_blocking hshort hexec)
    obtain ⟨fs, ⟨token, unready, rfl⟩, hpcase⟩ := hp.cases_result hplow (hcomes.results hlong)
    obtain ⟨-, hbvalue, hbevents⟩ | ⟨_, _, hleft, hcode, -⟩ := hbcase
    · obtain ⟨-, hpvalue, hpevents⟩ | ⟨_, _, hleft, hcode, -⟩ := hpcase
      · refine ⟨hpvalue.trans hbvalue.symm, ⟨_, by rw [hbvalue]⟩, ?_⟩
        rw [hpevents, hbevents, List.cons_append, List.append_assoc]
        exact .polled (.other rfl .nil)
      · omega
    · omega
  | more hexec hcomes hcode _ ih =>
    obtain ⟨es, rfl, hbcase⟩ := hb.cases_result hblow (results_of_blocking hshort hexec)
    obtain ⟨fs, ⟨token, unready, rfl⟩, hpcase⟩ := hp.cases_result hplow (hcomes.results hlong)
    obtain ⟨hlast, -⟩ | ⟨_, b', hleft, -, hb', hbvalue, hbstate, hbevents⟩ := hbcase
    · omega
    · obtain ⟨hlast, -⟩ | ⟨_, p', hleft', -, hp', hpvalue, hpstate, hpevents⟩ := hpcase
      · omega
      · cases hleft
        cases hleft'
        rw [hbstate] at hblow
        rw [hpstate] at hplow
        obtain ⟨hvalue, hresult, hreads⟩ := ih hb' hp' hblow hplow
        rw [hpvalue, hbvalue, hpevents, hbevents, List.cons_append, List.append_assoc]
        exact ⟨hvalue, hresult, .polled (.other rfl hreads)⟩

end Setting

/-! ### The whole step -/

/-- Every repetition of the step has the same result in both ways. -/
def SameResults (W : World ω) (config : Config) (context : Handle) (step : Step) (w : ω) : Prop :=
  ∀ {id : Int} {handler : Handle} {w₁ w₂ w₃ : ω}, W.answer (.resolve step.name) w = (id, w₁) →
    0 ≤ id → W.answer (.getHandler step.className context) w₁ = (handler, w₂) →
    handler.isNull = false → W.answer (.canExecute handler id) w₂ = (true, w₃) →
    Setting.SameResults W ⟨config, step, context, id, handler⟩ step.repeats.toNat w₃ w₃

theorem SameResults.performed {config : Config} {long short : List String} {context : Handle}
    {step : Step} {w : ω} {b p : Ran ω (Ending × UInt32)}
    (h : step.SameResults W config context w)
    (hlong : (config.withMarkers long).isLongRunning step.name = true)
    (hshort : (config.withMarkers short).isLongRunning step.name = false)
    (hb : step.Performed W (config.withMarkers short) context w b)
    (hp : step.Performed W (config.withMarkers long) context w p)
    (hblow : W.raised b.state = false) (hplow : W.raised p.state = false) :
    p.value = b.value ∧ (∃ v, b.value.1.verdict = .ok v) ∧
      ReadsAs (exchanges p.events) (exchanges b.events) := by
  -- The answers before the first repetition are the same, so both ways have got as far there.
  cases hb with
  | unknown hid hneg =>
    cases hp with
    | unknown hid' =>
      obtain ⟨rfl, rfl⟩ := Prod.mk.inj (hid.symm.trans hid')
      exact ⟨rfl, ⟨_, rfl⟩, .other rfl .nil⟩
    | interrupted | noHandler | refused | repeated => grind
  | interrupted _ _ hraised => exact absurd hraised (Bool.eq_false_iff.mp hblow)
  | noHandler hid hpos hraised hget hnull =>
    cases hp with
    | noHandler hid' _ _ hget' =>
      obtain ⟨rfl, rfl⟩ := Prod.mk.inj (hid.symm.trans hid')
      obtain ⟨rfl, rfl⟩ := Prod.mk.inj (hget.symm.trans hget')
      exact ⟨rfl, ⟨_, rfl⟩, .other rfl (.other rfl .nil)⟩
    | unknown | interrupted | refused | repeated => grind
  | refused hid hpos hraised hget hnull hcan =>
    cases hp with
    | refused hid' _ _ hget' _ hcan' =>
      obtain ⟨rfl, rfl⟩ := Prod.mk.inj (hid.symm.trans hid')
      obtain ⟨rfl, rfl⟩ := Prod.mk.inj (hget.symm.trans hget')
      obtain ⟨-, rfl⟩ := Prod.mk.inj (hcan.symm.trans hcan')
      exact ⟨rfl, ⟨_, rfl⟩, .other rfl (.other rfl (.other rfl .nil))⟩
    | unknown | interrupted | noHandler | repeated => grind
  | repeated hid hpos hraised hget hnull hcan hrb =>
    cases hp with
    | repeated hid' _ _ hget' _ hcan' hrp =>
      obtain ⟨rfl, rfl⟩ := Prod.mk.inj (hid.symm.trans hid')
      obtain ⟨rfl, rfl⟩ := Prod.mk.inj (hget.symm.trans hget')
      obtain ⟨-, rfl⟩ := Prod.mk.inj (hcan.symm.trans hcan')
      obtain ⟨hvalue, ⟨code, hcode⟩, hreads⟩ :=
        (h hid hpos hget hnull hcan).repeated hlong hshort hrb hrp hblow hplow
      refine ⟨hvalue, ⟨⟨0 < code, none⟩, ?_⟩, ?_⟩
      · rw [Ran.behind_value, hcode]
        rfl
      · simp only [Ran.behind_events, List.cons_append, List.nil_append, exchanges_called]
        exact .other rfl (.other rfl (.other rfl hreads))
    | unknown | interrupted | noHandler | refused => grind

/-- A long-running step goes as it would go if it were executed, as long as its results are those
of the executions and found in time, and as nothing interrupts it. -/
theorem execute_polled_eq_blocking (W : World ω) (config : Config) (long short : List String)
    (context : Handle) (step : Step) (w : ω)
    (hlong : (config.withMarkers long).isLongRunning step.name = true)
    (hshort : (config.withMarkers short).isLongRunning step.name = false)
    (hsame : step.SameResults W config context w)
    (hplow : W.raised (step.execute W (config.withMarkers long) context w).state = false)
    (hblow : W.raised (step.execute W (config.withMarkers short) context w).state = false) :
    let p := step.execute W (config.withMarkers long) context w
    let b := step.execute W (config.withMarkers short) context w
    (∃ v, p.value.1 = .ok v ∧ b.value.1 = .ok v) ∧
      p.value.2 = { b.value.2 with elapsed := p.value.2.elapsed } ∧
      ReadsAs (exchanges p.events) (exchanges b.events) := by
  intro p b
  have hpp := step.perform_performed (W := W) (config.withMarkers long) context w
  have hbp := step.perform_performed (W := W) (config.withMarkers short) context w
  obtain ⟨⟨⟨e, n⟩, es, w₁⟩, hpe⟩ :
      ∃ r, step.perform W (config.withMarkers long) context w = r := ⟨_, rfl⟩
  obtain ⟨⟨⟨e', n'⟩, fs, w₂⟩, hbe⟩ :
      ∃ r, step.perform W (config.withMarkers short) context w = r := ⟨_, rfl⟩
  have hp : p = _ := execute_of_perform hpe
  have hb : b = _ := execute_of_perform hbe
  rw [hpe] at hpp
  rw [hbe] at hbp
  change W.raised p.state = false at hplow
  change W.raised b.state = false at hblow
  rw [hp] at hplow ⊢
  rw [hb] at hblow ⊢
  obtain ⟨hvalue, ⟨v, hv⟩, hreads⟩ := hsame.performed hlong hshort hbp hpp hblow hplow
  obtain ⟨rfl, rfl⟩ := Prod.mk.inj hvalue
  rw [recordEnding_of_verdict hv.symm, recordEnding_of_verdict hv.symm]
  exact ⟨⟨v, hv, hv⟩, rfl, hreads⟩

/-- Two results that are positive and one that is not, each found by the third poll. -/
theorem execute_polled_three_times :
    let name := "1__A__I__Render"
    let step : Step := ⟨name, "A", "I", "Render", none, 4, false, .zero, 0⟩
    let script : Stub.Script :=
      { ids := [(name, 7)], polls := [(name, 2)], results := [(name, [3, 2, 0])] }
    let p := step.execute script.world (Config.withMarkers {} ["Render"]) ⟨5⟩ script.begin
    let b := step.execute script.world (Config.withMarkers {} []) ⟨5⟩ script.begin
    step.SameResults script.world {} ⟨5⟩ script.begin ∧ p.value.2.attempts = 3 ∧
      (∃ v, p.value.1 = .ok v ∧ b.value.1 = .ok v) ∧
      p.value.2 = { b.value.2 with elapsed := p.value.2.elapsed } ∧
      ReadsAs (exchanges p.events) (exchanges b.events) := by
  intro name step script p b
  have hsame : step.SameResults script.world {} ⟨5⟩ script.begin := by
    intro id handler w₁ w₂ w₃ hid _ hget _ hcan
    cases hid
    cases hget
    cases hcan
    -- Each repetition takes two naps of a second, and a pause of one follows.
    refine .more rfl ⟨_, _, 7200000000000, rfl, ?_, .unready rfl (.unready rfl (.ready ?_ rfl))⟩
      (by decide) ?_
    · decide +kernel
    · decide +kernel
    refine .more rfl ⟨_, _, 7203000000000, rfl, ?_, .unready rfl (.unready rfl (.ready ?_ rfl))⟩
      (by decide) ?_
    · decide +kernel
    · decide +kernel
    refine .last rfl ⟨_, _, 7206000000000, rfl, ?_, .unready rfl (.unready rfl (.ready ?_ rfl))⟩
      (.inr (by decide))
    · decide +kernel
    · decide +kernel
  have hagree := execute_polled_eq_blocking script.world {} ["Render"] [] ⟨5⟩ step script.begin
    (by decide +kernel) (by decide +kernel) hsame (by decide +kernel) (by decide +kernel)
  exact ⟨hsame, by decide +kernel, hagree⟩

end Step

end StepRunner
