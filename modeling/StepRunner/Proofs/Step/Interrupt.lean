import StepRunner.Proofs.Step.Course

/-!
# A step in flight when the flag is raised

`W.RaisedDuring w before e` says that the flag is first raised during the event `e`. What is left to
do for a step behind that event is `Prompt`: one poll at most, the release of the handler if a
repetition is in flight, and no repetition begins unless the step had just asked for its handler.
The main lemma is `Performed.prompt`; the lemmas `of_raised` say what is done under a raised flag.
-/

namespace StepRunner

open Stub (Call Handle)

/-! ### The event that raises the flag -/

namespace World

variable {ω : Type} {W : World ω}

theorem Leads.unique {w w₁ w₂ : ω} {es : List Event} (h₁ : W.Leads w es w₁)
    (h₂ : W.Leads w es w₂) : w₁ = w₂ := by
  induction h₁ with
  | refl => cases h₂; rfl
  | called ha _ ih =>
    cases h₂ with
    | called hb h₂ =>
      obtain ⟨-, rfl⟩ := Prod.mk.inj (ha.symm.trans hb)
      exact ih h₂
  | slept _ ih =>
    cases h₂ with
    | slept h₂ => exact ih h₂

theorem Leads.of_append {w w' : ω} {es fs : List Event} (h : W.Leads w (es ++ fs) w') :
    ∃ w₁, W.Leads w es w₁ ∧ W.Leads w₁ fs w' := by
  induction es generalizing w with
  | nil => exact ⟨w, .refl w, h⟩
  | cons e es ih =>
    cases h with
    | called ha h =>
      obtain ⟨w₁, h₁, h₂⟩ := ih h
      exact ⟨w₁, .called ha h₁, h₂⟩
    | slept h =>
      obtain ⟨w₁, h₁, h₂⟩ := ih h
      exact ⟨w₁, .slept h₁, h₂⟩

/-- From the state `w` on, the flag is first raised during `e`, behind the events `before`. -/
def RaisedDuring (W : World ω) (w : ω) (before : List Event) (e : Event) : Prop :=
  ∃ w₁ w₂, W.Leads w before w₁ ∧ W.raised w₁ = false ∧ W.Leads w₁ [e] w₂ ∧ W.raised w₂ = true

section

variable {w w' : ω} {es fs before after : List Event} {e f : Event}

/-- Of two stretches of events, the flag is raised in the first or in the second. -/
theorem RaisedDuring.split (hraise : W.RaisedDuring w before e) (hes : W.Leads w es w')
    (h : es ++ fs = before ++ e :: after) :
    (W.raised w' = true ∧ ∃ rest, es = before ++ e :: rest ∧ after = rest ++ fs) ∨
      (W.raised w' = false ∧
        ∃ here, before = es ++ here ∧ fs = here ++ e :: after ∧ W.RaisedDuring w' here e) := by
  obtain ⟨w₁, w₂, hbefore, hlow, he, hhigh⟩ := hraise
  rcases append_eq_append_cons h with ⟨rest, rfl, rfl⟩ | ⟨here, rfl, rfl⟩
  · obtain ⟨w₃, h₁, h₂⟩ := hes.of_append
    obtain rfl := hbefore.unique h₁
    rw [← List.singleton_append] at h₂
    obtain ⟨w₄, h₃, h₄⟩ := h₂.of_append
    obtain rfl := he.unique h₃
    exact .inl ⟨h₄.raised hhigh, rest, rfl, rfl⟩
  · obtain ⟨w₃, h₁, h₂⟩ := hbefore.of_append
    obtain rfl := hes.unique h₁
    have hlow' : W.raised w' = false := Bool.eq_false_iff.mpr fun hw => by
      rw [h₂.raised hw] at hlow
      cases hlow
    exact .inr ⟨hlow', here, rfl, rfl, w₁, w₂, h₂, hlow, he, hhigh⟩

theorem RaisedDuring.of_low (hraise : W.RaisedDuring w before e) (hes : W.Leads w es w')
    (hlow : W.raised w' = false) (h : es ++ fs = before ++ e :: after) :
    ∃ here, before = es ++ here ∧ fs = here ++ e :: after ∧ W.RaisedDuring w' here e := by
  rcases hraise.split hes h with ⟨hhigh, -⟩ | ⟨-, hrest⟩
  · rw [hlow] at hhigh
    cases hhigh
  · exact hrest

theorem RaisedDuring.cons (hraise : W.RaisedDuring w before e) (hf : W.Leads w [f] w')
    (h : f :: fs = before ++ e :: after) :
    (W.raised w' = true ∧ before = [] ∧ e = f ∧ after = fs) ∨
      (W.raised w' = false ∧
        ∃ here, before = f :: here ∧ fs = here ++ e :: after ∧ W.RaisedDuring w' here e) := by
  rcases hraise.split hf h with ⟨hhigh, rest, hrest, rfl⟩ | hlater
  · cases before with
    | nil =>
      obtain ⟨rfl, rfl⟩ := List.cons.inj hrest
      exact .inl ⟨hhigh, rfl, rfl, rfl⟩
    | cons g before => simp at hrest
  · exact .inr hlater

end

/-- A flag that is raised behind events was raised during one of them. -/
theorem Leads.exists_raisedDuring {w w' : ω} {es : List Event} (h : W.Leads w es w')
    (hlow : W.raised w = false) (hhigh : W.raised w' = true) :
    ∃ before e after, es = before ++ e :: after ∧ W.RaisedDuring w before e := by
  have hstep : ∀ {w w₁ w' : ω} {f : Event} {es : List Event}, W.Leads w [f] w₁ →
      W.raised w = false → (W.raised w₁ = false → W.raised w' = true →
        ∃ before e after, es = before ++ e :: after ∧ W.RaisedDuring w₁ before e) →
      W.raised w' = true →
      ∃ before e after, f :: es = before ++ e :: after ∧ W.RaisedDuring w before e := by
    intro w w₁ w' f es hf hlow ih hhigh
    cases hw₁ : W.raised w₁ with
    | true => exact ⟨[], f, es, rfl, w, w₁, .refl w, hlow, hf, hw₁⟩
    | false =>
      obtain ⟨before, e, after, rfl, w₂, w₃, hbefore, hrest⟩ := ih hw₁ hhigh
      exact ⟨f :: before, e, after, rfl, w₂, w₃, hf.trans hbefore, hrest⟩
  induction h with
  | refl w => rw [hlow] at hhigh; cases hhigh
  | called ha _ ih => exact hstep (.called ha (.refl _)) hlow ih hhigh
  | slept _ ih => exact hstep (.slept (.refl _)) hlow ih hhigh

end World

/-! ### Repetitions in flight -/

/-- The handler with which a call begins a repetition. -/
def Stub.Call.begins? : Call → Option Handle
  | .execute handler _ _ | .start handler _ _ => some handler
  | _ => none

def Stub.Call.isRelease : Call → Bool
  | .release _ _ _ => true
  | _ => false

/-- The handlers with which repetitions begin, in order. -/
def begun (es : List Event) : List Handle := (callsOf es).filterMap Call.begins?

/-- The calls that give back a handler, in order. -/
def releases (es : List Event) : List Call := (callsOf es).filter Call.isRelease

def polls (es : List Event) : Nat := (callsOf es).count .poll

/-- The handler of the repetition in flight behind a call, if `held` was in flight before. -/
def heldBehind (held : Option Handle) (e : Event) : Option Handle :=
  match e.call? with
  | some (.execute handler _ _) | some (.start handler _ _) => some handler
  | some (.release _ _ _) => none
  | _ => held

/-- The handler of the repetition that has begun but is not over behind these events. -/
def inFlight (es : List Event) : Option Handle := es.foldl heldBehind none

section

variable {c : Call} {a : c.Answer} {nanos : Nat} (es fs : List Event)

@[simp] theorem begun_nil : begun [] = [] := rfl

@[simp] theorem begun_called : begun (.called c a :: es) = c.begins?.toList ++ begun es := by
  cases h : c.begins? <;> simp [begun, callsOf, Event.call?, h]

@[simp] theorem begun_slept : begun (.slept nanos :: es) = begun es := rfl

@[simp] theorem begun_append : begun (es ++ fs) = begun es ++ begun fs := by simp [begun]

@[simp] theorem releases_nil : releases [] = [] := rfl

@[simp] theorem releases_called :
    releases (.called c a :: es) = if c.isRelease then c :: releases es else releases es := by
  simp [releases, callsOf, Event.call?, List.filter_cons]

@[simp] theorem releases_slept : releases (.slept nanos :: es) = releases es := rfl

@[simp] theorem releases_append : releases (es ++ fs) = releases es ++ releases fs := by
  simp [releases]

@[simp] theorem polls_nil : polls [] = 0 := rfl

@[simp] theorem polls_called :
    polls (.called c a :: es) = polls es + if c = .poll then 1 else 0 := by
  simp [polls, callsOf, Event.call?, List.count_cons]

@[simp] theorem polls_slept : polls (.slept nanos :: es) = polls es := rfl

@[simp] theorem polls_append : polls (es ++ fs) = polls es + polls fs := by simp [polls]

theorem inFlight_append_of_none {es : List Event} (h : inFlight es = none) :
    inFlight (es ++ fs) = inFlight fs := by
  rw [inFlight, List.foldl_append]
  exact congrArg (fs.foldl heldBehind) h

end

/-- Events during which no repetition begins or ends. -/
def Idle (es : List Event) : Prop := ∀ e ∈ es, ∀ held, heldBehind held e = held

theorem Idle.foldl {es : List Event} (h : Idle es) (held : Option Handle) :
    es.foldl heldBehind held = held := by
  induction es with
  | nil => rfl
  | cons e es ih =>
    rw [List.foldl_cons, h e List.mem_cons_self, ih fun f hf => h f (List.mem_cons_of_mem _ hf)]

section

variable {es : List Event}

/-! Polls neither begin nor end a repetition. -/

theorem begun_of_polls (h : ∀ c ∈ callsOf es, c = .poll) : begun es = [] :=
  List.filterMap_eq_nil_iff.mpr fun c hc => by
    rw [h c hc]
    rfl

theorem releases_of_polls (h : ∀ c ∈ callsOf es, c = .poll) : releases es = [] :=
  List.filter_eq_nil_iff.mpr fun c hc => by
    rw [h c hc]
    exact Bool.false_ne_true

theorem idle_of_polls (h : ∀ c ∈ callsOf es, c = .poll) : Idle es := by
  intro e he held
  cases e with
  | slept => rfl
  | called c a =>
    obtain rfl := h c (List.mem_filterMap.mpr ⟨_, he, rfl⟩)
    rfl

theorem idle_of_callsOf (h : callsOf es = []) : Idle es :=
  idle_of_polls fun c hc => by
    rw [h] at hc
    cases hc

end

/-- Behind a release no repetition is in flight until another begins. -/
theorem inFlight_release {className : String} {handler context : Handle} {fs : List Event}
    (es : List Event) (hfs : callsOf fs = []) :
    inFlight (es ++ .called (.release className handler context) () :: fs) = none := by
  rw [inFlight, List.foldl_append, List.foldl_cons]
  exact (idle_of_callsOf hfs).foldl none

namespace Step

variable {ω : Type} {W : World ω} {w : ω} {before after : List Event} {e : Event}

/-- What is left to do for a step when the flag is first raised during `e`. -/
structure Prompt (step : Step) (context : Handle) (before : List Event) (e : Event)
    (after : List Event) : Prop where
  begun_le : (begun after).length ≤ 1
  /-- A repetition begins only if the step had just asked for its handler or about it. -/
  begun_of : begun after ≠ [] →
    (∃ handler, e = .called (.getHandler step.className context) handler) ∨
      ∃ handler id can, e = .called (.canExecute handler id) can
  polls_le : polls after ≤ 1
  /-- A repetition in flight is ended once, and no other. -/
  released : ∀ handler, inFlight (before ++ [e]) = some handler →
    releases after = [.release step.className handler context]
  /-- If none is in flight, only one that begins is ended, once. -/
  released_begun : inFlight (before ++ [e]) = none →
    releases after = (begun after).map fun handler => .release step.className handler context

/-! ### One repetition -/

theorem Awaited.idle {interval deadline : Nat} {r : Ran ω Attempt}
    (h : Awaited W interval deadline w r) : Idle r.events :=
  idle_of_polls h.calls_eq_poll

/-- Under a raised flag the next poll is the last. -/
theorem Awaited.of_raised {interval deadline : Nat} {r : Ran ω Attempt}
    (h : Awaited W interval deadline w r) (hw : W.raised w = true) :
    ∃ a, r.events = [.called .poll a] := by
  have hpoll : ∀ {a w₁}, W.answer .poll w = (a, w₁) → W.raised w₁ = true := fun ha =>
    (World.Leads.called ha (.refl _)).raised hw
  cases h with
  | ready | interrupted => exact ⟨_, rfl⟩
  | timedOut ha hlow | again ha hlow =>
    rw [hpoll ha] at hlow
    cases hlow

theorem Awaited.after_raise {interval deadline : Nat} {r : Ran ω Attempt}
    (h : Awaited W interval deadline w r) (hraise : W.RaisedDuring w before e)
    (hr : r.events = before ++ e :: after) :
    after = [] ∨ ∃ a, after = [.called .poll a] := by
  induction h generalizing before with
  | ready ha | interrupted ha | timedOut ha =>
    rcases hraise.cons (.called ha (.refl _)) hr with ⟨-, -, -, rfl⟩ | ⟨-, here, -, hnil, -⟩
    · exact .inl rfl
    · simp at hnil
  | again ha hlow _ _ hrest ih =>
    obtain ⟨here, rfl, hr, hraise⟩ := hraise.of_low (.called ha (.refl _)) hlow hr
    rcases hraise.cons (.slept (.refl _)) hr with ⟨hhigh, -, -, rfl⟩ | ⟨-, there, rfl, hr, hraise⟩
    · exact .inr (hrest.of_raised hhigh)
    · exact ih hraise hr

namespace Setting

/-- A repetition begins with its first call, and only then. -/
theorem Attempted.begins {s : Setting} {r : Ran ω Attempt} (h : s.Attempted W w r) :
    ∃ f fs, r.events = f :: fs ∧ (∀ held, heldBehind held f = some s.handler) ∧ Idle fs := by
  cases h with
  | blocking | unlimited => exact ⟨_, [], rfl, fun _ => rfl, by simp [Idle]⟩
  | polled _ _ _ ha => exact ⟨_, _, rfl, fun _ => rfl, ha.idle⟩

theorem Attempted.inFlight_eq {s : Setting} {r : Ran ω Attempt} (h : s.Attempted W w r)
    (hr : r.events = before ++ e :: after) : inFlight (before ++ [e]) = some s.handler := by
  obtain ⟨f, fs, hevents, hf, hidle⟩ := h.begins
  rw [hr] at hevents
  cases before with
  | nil =>
    obtain ⟨rfl, -⟩ := List.cons.inj hevents
    exact hf none
  | cons g before =>
    obtain ⟨rfl, rfl⟩ := List.cons.inj hevents
    have hidle' : Idle (before ++ [e]) := fun x hx => hidle x <| by
      rcases List.mem_append.mp hx with hx | hx
      · exact List.mem_append_left _ hx
      · rw [List.mem_singleton.mp hx]
        exact List.mem_append_right _ List.mem_cons_self
    rw [inFlight, List.cons_append, List.foldl_cons, hf, hidle'.foldl]

theorem Attempted.of_raised {s : Setting} {r : Ran ω Attempt} (h : s.Attempted W w r)
    (hw : W.raised w = true) :
    begun r.events = [s.handler] ∧ releases r.events = [] ∧ polls r.events ≤ 1 := by
  cases h with
  | blocking | unlimited => simp [Call.begins?, Call.isRelease]
  | polled _ ha _ hr =>
    obtain ⟨a, hpoll⟩ := hr.of_raised ((World.Leads.called ha (.refl _)).raised hw)
    simp [hpoll, Call.begins?, Call.isRelease]

theorem Attempted.after_raise {s : Setting} {r : Ran ω Attempt} (h : s.Attempted W w r)
    (hraise : W.RaisedDuring w before e) (hr : r.events = before ++ e :: after) :
    after = [] ∨ ∃ a, after = [.called .poll a] := by
  cases h with
  | blocking _ ha | unlimited _ ha =>
    rcases hraise.cons (.called ha (.refl _)) hr with ⟨-, -, -, rfl⟩ | ⟨-, here, -, hnil, -⟩
    · exact .inl rfl
    · simp at hnil
  | polled _ ha _ hrest =>
    rcases hraise.cons (.called ha (.refl _)) hr with ⟨hhigh, -, -, rfl⟩ | ⟨-, here, -, hr, hraise⟩
    · exact .inr (hrest.of_raised hhigh)
    · exact hrest.after_raise hraise hr

/-! ### All repetitions -/

/-- The way from one repetition to the next. -/
theorem Attempted.leads_pause {s : Setting} {a : Attempt} {es : List Event} {w₁ w₂ w₃ : ω}
    (h : s.Attempted W w ⟨a, es, w₁⟩) (hback : W.answer s.giveBack w₁ = ((), w₂))
    (hnap : W.sleep s.config.repeatPause.nanos w₂ = w₃) :
    W.Leads w (es ++ [.called s.giveBack (), .slept s.config.repeatPause.nanos]) w₃ := by
  subst hnap
  exact h.leads.trans (.called hback (.slept (.refl _)))

theorem Repeated.inFlight_eq_none {s : Setting} {left : Nat} {n : UInt32}
    {r : Ran ω (Ending × UInt32)} (h : s.Repeated W left n w r)
    (hr : r.value.1 ≠ .halted .clockOverflow) : inFlight r.events = none := by
  induction h with
  | broke => exact absurd rfl hr
  | last | interrupted => exact inFlight_release _ rfl
  | again _ _ _ _ _ _ ih =>
    rw [Ran.behind_events, inFlight_append_of_none _ (inFlight_release _ rfl)]
    exact ih hr

/-- Under a raised flag one repetition runs. -/
theorem Repeated.of_raised {s : Setting} {left : Nat} {n : UInt32} {r : Ran ω (Ending × UInt32)}
    (h : s.Repeated W left n w r) (hr : r.value.1 ≠ .halted .clockOverflow)
    (hw : W.raised w = true) :
    begun r.events = [s.handler] ∧ releases r.events = [s.giveBack] ∧ polls r.events ≤ 1 := by
  cases h with
  | broke => exact absurd rfl hr
  | last ha | interrupted ha =>
    obtain ⟨hbegun, hreleases, hpolls⟩ := ha.of_raised hw
    simp only at hbegun hreleases hpolls
    simp [hbegun, hreleases, hpolls, Call.begins?, Call.isRelease]
  | again ha _ hback hnap hlow =>
    rw [(ha.leads_pause hback hnap).raised hw] at hlow
    cases hlow

/-- If the flag is raised in a repetition or right behind it, no other begins. -/
theorem Attempted.release_after_raise {s : Setting} {a : Attempt} {es fs : List Event} {w₁ : ω}
    (h : s.Attempted W w ⟨a, es, w₁⟩) (hfs : callsOf fs = [])
    (hraise : W.RaisedDuring w before e)
    (hevents : es ++ .called s.giveBack () :: fs = before ++ e :: after) :
    begun after = [] ∧ polls after ≤ 1 ∧
      releases after = (inFlight (before ++ [e])).toList.map
        fun handler => .release s.step.className handler s.context := by
  rcases hraise.split h.leads hevents with ⟨-, rest, rfl, rfl⟩ | ⟨-, here, rfl, hrest, -⟩
  · have hquiet : begun fs = [] ∧ releases fs = [] ∧ polls fs = 0 := by
      simp [begun, releases, polls, hfs]
    rw [h.inFlight_eq rfl]
    rcases h.after_raise hraise rfl with rfl | ⟨a, rfl⟩ <;>
      simp [hquiet, Call.begins?, Call.isRelease]
  · -- The flag is raised during the release or the pause behind it.
    obtain ⟨gs, hgs, hquiet, hafter⟩ : ∃ gs, here ++ [e] = .called s.giveBack () :: gs ∧
        callsOf gs = [] ∧ callsOf after = [] := by
      cases here with
      | nil =>
        obtain ⟨rfl, rfl⟩ := List.cons.inj hrest
        exact ⟨[], rfl, rfl, hfs⟩
      | cons g here =>
        obtain ⟨rfl, rfl⟩ := List.cons.inj hrest
        rw [← List.singleton_append, List.append_eq, ← List.append_assoc, callsOf_append] at hfs
        obtain ⟨hhere, hafter⟩ := List.append_eq_nil_iff.mp hfs
        exact ⟨here ++ [e], rfl, hhere, hafter⟩
    rw [List.append_assoc, hgs, inFlight_release _ hquiet]
    simp [begun, releases, polls, hafter]

theorem Repeated.after_raise {s : Setting} {left : Nat} {n : UInt32}
    {r : Ran ω (Ending × UInt32)} (h : s.Repeated W left n w r)
    (hr : r.value.1 ≠ .halted .clockOverflow) (hraise : W.RaisedDuring w before e)
    (hevents : r.events = before ++ e :: after) :
    begun after = [] ∧ polls after ≤ 1 ∧
      releases after = (inFlight (before ++ [e])).toList.map
        fun handler => .release s.step.className handler s.context := by
  induction h generalizing before with
  | broke => exact absurd rfl hr
  | last ha | interrupted ha => exact ha.release_after_raise rfl hraise hevents
  | again ha _ hback hnap hlow _ ih =>
    obtain ⟨here, rfl, hevents, hraise⟩ :=
      hraise.of_low (ha.leads_pause hback hnap) hlow hevents
    rw [List.append_assoc, inFlight_append_of_none _ (inFlight_release _ rfl)]
    exact ih hr hraise hevents

end Setting

/-! ### The whole step -/

theorem Performed.inFlight_eq_none {config : Config} {context : Handle} {step : Step}
    {r : Ran ω (Ending × UInt32)} (h : step.Performed W config context w r)
    (hr : r.value.1 ≠ .halted .clockOverflow) : inFlight r.events = none := by
  cases h with
  | unknown | interrupted | noHandler | refused => rfl
  | repeated _ _ _ _ _ _ hrep =>
    rw [Ran.behind_events, inFlight_append_of_none _ rfl]
    exact hrep.inFlight_eq_none hr

theorem Prompt.of_repetition {context : Handle} {step : Step} (hbegun : begun after = [])
    (hpolls : polls after ≤ 1)
    (hreleases : releases after = (inFlight (before ++ [e])).toList.map
      fun handler => .release step.className handler context) :
    step.Prompt context before e after where
  begun_le := by simp [hbegun]
  begun_of h := absurd hbegun h
  polls_le := hpolls
  released handler h := by rw [hreleases, h]; rfl
  released_begun h := by rw [hreleases, h, hbegun]; rfl

theorem Prompt.nil {context : Handle} {step : Step} (h : inFlight (before ++ [e]) = none) :
    step.Prompt context before e [] :=
  .of_repetition rfl (Nat.zero_le 1) (by rw [h]; rfl)

/-- A step that has asked for its handler or about it runs one repetition. -/
theorem Prompt.of_asked {config : Config} {context handler : Handle} {id : Int} {step : Step}
    {left : Nat} {n : UInt32} {r : Ran ω (Ending × UInt32)}
    (he : (∃ h, e = .called (.getHandler step.className context) h) ∨
      ∃ h id can, e = .called (.canExecute h id) can)
    (h : Setting.Repeated W ⟨config, step, context, id, handler⟩ left n w r)
    (hr : r.value.1 ≠ .halted .clockOverflow) (hw : W.raised w = true)
    (hfree : inFlight (before ++ [e]) = none) (hbegun : begun after = begun r.events)
    (hpolls : polls after = polls r.events) (hreleases : releases after = releases r.events) :
    step.Prompt context before e after := by
  obtain ⟨hbegun', hreleases', hpolls'⟩ := h.of_raised hr hw
  rw [hbegun'] at hbegun
  rw [hreleases'] at hreleases
  exact {
    begun_le := by simp [hbegun]
    begun_of := fun _ => he
    polls_le := hpolls ▸ hpolls'
    released := fun _ hin => by rw [hfree] at hin; cases hin
    released_begun := fun _ => by rw [hreleases, hbegun]; rfl }

theorem Performed.prompt {config : Config} {context : Handle} {step : Step}
    {r : Ran ω (Ending × UInt32)} (h : step.Performed W config context w r)
    (hr : r.value.1 ≠ .halted .clockOverflow) (hraise : W.RaisedDuring w before e)
    (hevents : r.events = before ++ e :: after) : step.Prompt context before e after := by
  cases h with
  | unknown hid | interrupted hid =>
    rcases hraise.cons (.called hid (.refl _)) hevents with ⟨-, rfl, rfl, rfl⟩ | ⟨-, here, -, h, -⟩
    · exact .nil rfl
    · simp at h
  | noHandler hid _ hlow hget =>
    obtain ⟨here, rfl, hevents, hraise⟩ := hraise.of_low (.called hid (.refl _)) hlow hevents
    rcases hraise.cons (.called hget (.refl _)) hevents with ⟨-, rfl, rfl, rfl⟩ | ⟨-, _, -, h, -⟩
    · exact .nil rfl
    · simp at h
  | refused hid _ hlow hget _ hcan =>
    obtain ⟨here, rfl, hevents, hraise⟩ := hraise.of_low (.called hid (.refl _)) hlow hevents
    rcases hraise.cons (.called hget (.refl _)) hevents with
      ⟨-, rfl, rfl, rfl⟩ | ⟨-, here, rfl, hevents, hraise⟩
    · exact .of_repetition rfl (Nat.zero_le 1) rfl
    · rcases hraise.cons (.called hcan (.refl _)) hevents with ⟨-, rfl, rfl, rfl⟩ | ⟨-, _, -, h, -⟩
      · exact .nil rfl
      · simp at h
  | repeated hid _ hlow hget _ hcan hrep =>
    obtain ⟨here, rfl, hevents, hraise⟩ := hraise.of_low (.called hid (.refl _)) hlow hevents
    rcases hraise.cons (.called hget (.refl _)) hevents with
      ⟨hhigh, rfl, rfl, rfl⟩ | ⟨-, here, rfl, hevents, hraise⟩
    · have hhigh' := (World.Leads.called hcan (.refl _)).raised hhigh
      exact .of_asked (.inl ⟨_, rfl⟩) hrep hr hhigh' rfl rfl rfl rfl
    · rcases hraise.cons (.called hcan (.refl _)) hevents with
        ⟨hhigh, rfl, rfl, rfl⟩ | ⟨-, here, rfl, hevents, hraise⟩
      · exact .of_asked (.inr ⟨_, _, _, rfl⟩) hrep hr hhigh rfl rfl rfl rfl
      · obtain ⟨hbegun, hpolls, hreleases⟩ := hrep.after_raise hr hraise hevents
        exact .of_repetition hbegun hpolls hreleases

theorem Prompt.behind {context : Handle} {step : Step} {es : List Event}
    (h : step.Prompt context before e after) (hes : inFlight es = none) :
    step.Prompt context (es ++ before) e after := by
  have hin : inFlight (es ++ before ++ [e]) = inFlight (before ++ [e]) := by
    rw [List.append_assoc, inFlight_append_of_none _ hes]
  exact { h with
    released := hin ▸ h.released
    released_begun := hin ▸ h.released_begun }

end Step
end StepRunner
