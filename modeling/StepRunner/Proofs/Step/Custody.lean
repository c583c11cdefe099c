import StepRunner.Proofs.Step.Verdict

/-!
# The handler in the hands of a step

A step asks for its handler once, before the first repetition, and gives it back behind every
repetition. So it holds the handler up to the end of the first one; each later repetition uses and
gives back a handler that is no longer held (`execute_passes_its_handler`,
`second_repetition_holds_nothing`).
-/

namespace StepRunner

open Stub (Call Handle)

/-- The handler that a call passes to the module. -/
def Stub.Call.handler? : Call → Option Handle
  | .canExecute handler _ | .execute handler _ _ | .start handler _ _ | .release _ handler _ =>
    some handler
  | _ => none

def Event.isAsking : Event → Bool
  | .called (.getHandler _ _) _ => true
  | _ => false

/-- The calls that ask for a handler with their answers, in order. -/
def askings (es : List Event) : List Event := es.filter Event.isAsking

/-- Behind the events the handler is held: it was got and has not been given back since. -/
def Held (handler : Handle) (es : List Event) : Prop :=
  ∃ before className context after,
    es = before ++ .called (.getHandler className context) handler :: after ∧
      ∀ cls base, ¬ GivenBack cls handler base after

section

variable {es fs : List Event} {c : Call} {handler : Handle}

@[simp] theorem askings_nil : askings [] = [] := rfl

@[simp] theorem askings_append : askings (es ++ fs) = askings es ++ askings fs := by
  simp [askings]

@[simp] theorem askings_cons (e : Event) :
    askings (e :: es) = if e.isAsking then e :: askings es else askings es := by
  simp [askings, List.filter_cons]

theorem handler?_of_begins? (h : c.begins? = some handler) :
    c.handler? = some handler ∧ c.isRelease = false := by
  cases c <;> simp_all [Call.begins?, Call.handler?, Call.isRelease]

theorem givenBack_of_mem_releases {className : String} {context : Handle}
    (h : .release className handler context ∈ releases es) :
    GivenBack className handler context es := by
  obtain ⟨hcall, -⟩ := List.mem_filter.mp h
  obtain ⟨e, he, hcall⟩ := List.mem_filterMap.mp hcall
  match e with
  | .called c a =>
    obtain rfl := Option.some.inj hcall
    exact he

theorem releases_ne_nil {className : String} {context : Handle}
    (h : GivenBack className handler context es) : releases es ≠ [] :=
  List.ne_nil_of_mem (a := .release className handler context)
    (List.mem_filter.mpr ⟨List.mem_filterMap.mpr ⟨_, h, rfl⟩, rfl⟩)

/-- Behind a single asking the handler is held as long as nothing gives it back. -/
theorem held_iff {name className : String} {id : Int} {context : Handle}
    (hes : askings es = []) :
    Held handler (.called (.resolve name) id :: .called (.getHandler className context) handler ::
      es) ↔ ∀ cls base, ¬ GivenBack cls handler base es := by
  constructor
  · rintro ⟨before, cls, base, after, hevents, hkept⟩
    have hrest : .getHandler cls base ∉ callsOf es := fun hmem => by
      obtain ⟨e, he, hcall⟩ := List.mem_filterMap.mp hmem
      have hasks := List.filter_eq_nil_iff.mp hes e he
      match e with
      | .called c a =>
        obtain rfl := Option.some.inj hcall
        exact hasks rfl
    obtain ⟨-, rfl⟩ := Step.eq_second_of_getHandler hrest hevents
    exact hkept
  · intro hkept
    exact ⟨[.called (.resolve name) id], className, context, es, rfl, hkept⟩

end

namespace Step

variable {ω : Type} {W : World ω} {w : ω} {before after : List Event} {c : Call} {a : c.Answer}
  {handler : Handle}

/-! ### Repetitions -/

namespace Setting

variable {s : Setting}

/-- A repetition begins with its first call; then it polls. -/
theorem Attempted.opening {r : Ran ω Attempt} (h : s.Attempted W w r) :
    ∃ (c : Call) (a : c.Answer) (fs : List Event), r.events = .called c a :: fs ∧
      c.begins? = some s.handler ∧ ∀ c ∈ callsOf fs, c = .poll := by
  cases h with
  | blocking | unlimited => exact ⟨_, _, [], rfl, rfl, nofun⟩
  | polled _ _ _ ha => exact ⟨_, _, _, rfl, rfl, ha.calls_eq_poll⟩

theorem Attempted.releases_eq {r : Ran ω Attempt} (h : s.Attempted W w r) :
    releases r.events = [] := by
  obtain ⟨c, a, fs, hevents, hc, hfs⟩ := h.opening
  simp [hevents, (handler?_of_begins? hc).2, releases_of_polls hfs]

/-- How often the handler has been given back before a call that passes it: once for each of the
`k` repetitions before. -/
structure Lent (s : Setting) (k : Nat) (before : List Event) (c : Call) : Prop where
  begun : begun before = List.replicate (if c.isRelease then k + 1 else k) s.handler
  released : releases before = List.replicate k s.giveBack

/-- Only the first call of a repetition passes the handler, and the call that gives it back. -/
theorem Attempted.lent {v : Attempt} {es fs : List Event} {w₁ : ω}
    (h : s.Attempted W w ⟨v, es, w₁⟩) (hfs : callsOf fs = [])
    (hevents : es ++ .called s.giveBack () :: fs = before ++ .called c a :: after)
    (hc : c.handler? = some handler) : handler = s.handler ∧ s.Lent 0 before c := by
  rcases append_eq_append_cons hevents with ⟨rest, hes, -⟩ | ⟨here, rfl, hhere⟩
  · obtain ⟨c₀, a₀, gs, hopen, hbegins, hgs⟩ := h.opening
    obtain ⟨hhandler, hrelease⟩ := handler?_of_begins? hbegins
    dsimp only at hopen
    rw [hopen] at hes
    cases before with
    | nil =>
      cases hes
      rw [hhandler] at hc
      exact ⟨(Option.some.inj hc).symm, by simp [hrelease], rfl⟩
    | cons e before =>
      obtain ⟨-, hgs'⟩ := List.cons.inj hes
      rw [hgs c (mem_callsOf hgs')] at hc
      cases hc
  · cases here with
    | nil =>
      cases hhere
      have hes : StepRunner.begun es = [s.handler] := h.begun_eq
      exact ⟨(Option.some.inj hc).symm, by simp [hes, Call.isRelease], by simpa using h.releases_eq⟩
    | cons e here =>
      obtain ⟨-, hquiet⟩ := List.cons.inj hhere
      have hcall := mem_callsOf hquiet
      rw [hfs] at hcall
      cases hcall

theorem Repeated.lent {left : Nat} {n : UInt32} {r : Ran ω (Ending × UInt32)}
    (h : s.Repeated W left n w r) (hevents : r.events = before ++ .called c a :: after)
    (hc : c.handler? = some handler) :
    handler = s.handler ∧ ∃ k ≤ left, s.Lent k before c := by
  induction h generalizing before with
  | @broke _ _ _ w₁ es ha =>
    have hlonger : es ++ .called s.giveBack () :: [] =
        before ++ .called c a :: (after ++ [.called s.giveBack ()]) := by
      dsimp only at hevents
      rw [hevents, List.append_assoc, List.cons_append]
    obtain ⟨hhandler, hlent⟩ := ha.lent rfl hlonger hc
    exact ⟨hhandler, 0, Nat.zero_le _, hlent⟩
  | last ha | interrupted ha =>
    obtain ⟨hhandler, hlent⟩ := ha.lent rfl hevents hc
    exact ⟨hhandler, 0, Nat.zero_le _, hlent⟩
  | @again left _ _ _ _ _ _ es r ha _ _ _ _ _ ih =>
    rcases append_eq_append_cons hevents with ⟨rest, hes, -⟩ | ⟨here, rfl, hhere⟩
    · obtain ⟨hhandler, hlent⟩ := ha.lent rfl hes hc
      exact ⟨hhandler, 0, Nat.zero_le _, hlent⟩
    · -- One repetition more is over than the rest of them counts.
      obtain ⟨hhandler, k, hk, hbegun, hreleased⟩ := ih hhere
      have hes : StepRunner.begun es = [s.handler] ∧ releases es = [] :=
        ⟨ha.begun_eq, ha.releases_eq⟩
      refine ⟨hhandler, k + 1, Nat.succ_le_succ hk, ?_, ?_⟩
      · simp only [begun_append, hes, hbegun, begun_called, begun_slept, begun_nil]
        split <;> rfl
      · simp [hes, hreleased, Call.isRelease, List.replicate_succ]

/-- Every repetition gives back the handler once, but for one that breaks down. -/
theorem Repeated.length_releases {left : Nat} {n : UInt32} {r : Ran ω (Ending × UInt32)}
    (h : s.Repeated W left n w r) :
    (r.value.1 = .halted .clockOverflow →
        (releases r.events).length + 1 = (begun r.events).length) ∧
      (r.value.1 ≠ .halted .clockOverflow →
        (releases r.events).length = (begun r.events).length) := by
  have hone : ∀ {v : Attempt} {es : List Event} {w w₁ : ω}, s.Attempted W w ⟨v, es, w₁⟩ →
      releases es = [] ∧ begun es = [s.handler] := fun ha => ⟨ha.releases_eq, ha.begun_eq⟩
  induction h with
  | broke ha => simp [hone ha]
  | last ha he => simp [hone ha, ending?_ne_overflow he, Call.isRelease, Call.begins?]
  | interrupted ha => simp [hone ha, Call.isRelease, Call.begins?]
  | again ha _ _ _ _ _ ih =>
    obtain ⟨hbroke, hwent⟩ := ih
    simp only [Ran.behind_value, Ran.behind_events, releases_append, begun_append, hone ha]
    refine ⟨fun hr => ?_, fun hr => ?_⟩
    · simp [← hbroke hr, Call.isRelease, Call.begins?]
    · simp [hwent hr, Call.isRelease, Call.begins?]

theorem Repeated.askings_eq {left : Nat} {n : UInt32} {r : Ran ω (Ending × UInt32)}
    (h : s.Repeated W left n w r) : askings r.events = [] := by
  refine List.filter_eq_nil_iff.mpr fun e he hasks => ?_
  match e with
  | .called (.getHandler className context) handler => exact h.not_mem rfl he

end Setting

/-! ### The whole step -/

/-- What the module has seen of a handler before a call that passes it, `k` repetitions being
over. -/
structure Passed (step : Step) (context : Handle) (k : Nat) (before : List Event) (c : Call)
    (handler : Handle) : Prop where
  present : handler.isNull = false
  /-- The step has asked once, and got this handler. -/
  asked : askings before = [.called (.getHandler step.className context) handler]
  /-- It has been used in the repetitions before, and in the one that the call ends. -/
  begun : begun before = List.replicate (if c.isRelease then k + 1 else k) handler
  /-- It has been given back behind each of the repetitions before, once. -/
  released : releases before = List.replicate k (.release step.className handler context)
  held : Held handler before ↔ k = 0
  /-- The module is asked about it before the first repetition. -/
  unused : ∀ id, c = .canExecute handler id → k = 0

theorem Passed.of_lent {config : Config} {context : Handle} {step : Step} {id : Int} {can : Bool}
    {k : Nat} (hnull : handler.isNull = false) (hbefore : askings before = [])
    (hcan : ∀ id, c ≠ .canExecute handler id)
    (h : Setting.Lent ⟨config, step, context, id, handler⟩ k before c) :
    step.Passed context k
      (.called (.resolve step.name) id :: .called (.getHandler step.className context) handler ::
        .called (.canExecute handler id) can :: before) c handler where
  present := hnull
  asked := by simp [Event.isAsking, hbefore]
  begun := by simpa [Call.begins?] using h.begun
  released := by simpa [Call.isRelease] using h.released
  held := by
    have hnone : askings (.called (.canExecute handler id) can :: before) = [] := by
      simp [Event.isAsking, hbefore]
    have hreleases : releases (.called (.canExecute handler id) can :: before) =
        List.replicate k (.release step.className handler context) := by
      simpa [Call.isRelease] using h.released
    refine (held_iff hnone).trans ⟨fun hkept => ?_, fun hk cls base hback => ?_⟩
    · by_contra hk
      have hmem : .release step.className handler context ∈
          releases (.called (.canExecute handler id) can :: before) := by
        rw [hreleases]
        exact List.mem_replicate.mpr ⟨hk, rfl⟩
      exact hkept _ _ (givenBack_of_mem_releases hmem)
    · rw [hk] at hreleases
      exact releases_ne_nil hback hreleases
  unused id hc := absurd hc (hcan id)

/-- A handler that was just got is held when the module is asked about it. -/
theorem Passed.of_got {context : Handle} {step : Step} {id : Int}
    (hnull : handler.isNull = false) :
    step.Passed context 0 [.called (.resolve step.name) id,
      .called (.getHandler step.className context) handler] (.canExecute handler id) handler where
  present := hnull
  asked := rfl
  begun := rfl
  released := rfl
  held := (held_iff askings_nil).trans (by simp [GivenBack])
  unused _ _ := rfl

/-- Behind the two questions about a handler it is passed in repetitions alone. -/
theorem Passed.of_events {context got : Handle} {step : Step} {id : Int} {can : Bool}
    {es : List Event} (hnull : got.isNull = false)
    (hevents : .called (.resolve step.name) id ::
      .called (.getHandler step.className context) got :: .called (.canExecute got id) can :: es =
        before ++ .called c a :: after)
    (hc : c.handler? = some handler) :
    step.Passed context 0 before c handler ∨
      ∃ here, es = here ++ .called c a :: after ∧
        before = .called (.resolve step.name) id ::
          .called (.getHandler step.className context) got ::
            .called (.canExecute got id) can :: here := by
  match before with
  | [] => cases hevents; cases hc
  | [_] => cases hevents; cases hc
  | [_, _] =>
    cases hevents
    obtain rfl := Option.some.inj hc
    exact .inl (.of_got hnull)
  | _ :: _ :: _ :: here =>
    simp only [List.cons_append, List.cons.injEq] at hevents
    obtain ⟨rfl, rfl, rfl, hes⟩ := hevents
    exact .inr ⟨here, hes, rfl⟩

theorem Performed.passed {config : Config} {context : Handle} {step : Step}
    {r : Ran ω (Ending × UInt32)} (h : step.Performed W config context w r)
    (hevents : r.events = before ++ .called c a :: after) (hc : c.handler? = some handler) :
    ∃ k ≤ step.repeats.toNat, step.Passed context k before c handler := by
  cases h with
  | unknown | interrupted | noHandler =>
    -- No call passes a handler.
    have hcall := mem_callsOf hevents
    simp only [callsOf, Event.call?, List.filterMap_cons, List.filterMap_nil, List.mem_cons,
      List.not_mem_nil, or_false] at hcall
    rcases hcall with rfl | rfl <;> cases hc
  | refused _ _ _ _ hnull _ =>
    obtain hpassed | ⟨here, hnil, -⟩ := Passed.of_events hnull hevents hc
    · exact ⟨0, Nat.zero_le _, hpassed⟩
    · simp at hnil
  | @repeated _ _ _ _ _ r' _ _ _ _ hnull _ hrep =>
    obtain hpassed | ⟨here, hes, rfl⟩ := Passed.of_events hnull hevents hc
    · exact ⟨0, Nat.zero_le _, hpassed⟩
    · obtain ⟨rfl, k, hk, hlent⟩ := hrep.lent hes hc
      have hnone := hrep.askings_eq
      rw [show r'.events = _ from hes, askings_append] at hnone
      have hcan : ∀ id, c ≠ .canExecute handler id := fun id hasked => by
        subst hasked
        have hmem : .called (.canExecute handler id) a ∈ r'.events := by
          rw [show r'.events = _ from hes]
          exact List.mem_append_right _ List.mem_cons_self
        exact hrep.not_mem rfl hmem
      exact ⟨k, hk, .of_lent hnull (List.append_eq_nil_iff.mp hnone).1 hcan hlent⟩

/-- Only repetitions use up a handler, and they end at most as often as they begin. -/
theorem Performed.releases_le {config : Config} {context : Handle} {step : Step}
    {r : Ran ω (Ending × UInt32)} (h : step.Performed W config context w r) :
    (releases r.events).length ≤ (begun r.events).length ∧
      (begun r.events).length ≤ (1 + step.repeats.toNat) * (askings r.events).length := by
  cases h with
  | unknown | interrupted | noHandler | refused => simp [Call.isRelease, Call.begins?]
  | @repeated _ _ _ _ _ r' _ _ _ _ _ _ hrep =>
    obtain ⟨hbroke, hwent⟩ := hrep.length_releases
    have hle : (releases r'.events).length ≤ (begun r'.events).length := by
      by_cases hr : r'.value.1 = .halted .clockOverflow
      · exact Nat.le_of_succ_le (Nat.le_of_eq (hbroke hr))
      · exact Nat.le_of_eq (hwent hr)
    have hbegun := hrep.attempts.2
    simp [Call.isRelease, Call.begins?, Event.isAsking, hrep.askings_eq]
    omega

/-- Every call that passes a handler passes the one that the step has asked for. It is held at the
calls of the first repetition and before it; each later repetition passes it although it was given
back behind every repetition before. -/
theorem execute_passes_its_handler (W : World ω) (config : Config) (context : Handle) (step : Step)
    (w : ω) :
    let r := step.execute W config context w
    (∀ before c (a : c.Answer) after handler, r.events = before ++ .called c a :: after →
      c.handler? = some handler →
      ∃ k ≤ step.repeats.toNat, step.Passed context k before c handler) ∧
    (releases r.events).length ≤ (begun r.events).length ∧
    (begun r.events).length ≤ (1 + step.repeats.toNat) * (askings r.events).length := by
  intro r
  obtain ⟨e, n, es, w₁, -, hp, hrun⟩ := step.execute_performed (W := W) config context w
  have hr : r = ⟨(e.verdict, step.recordEnding e _ n), es, w₁⟩ := hrun
  rw [hr]
  exact ⟨fun _ _ _ _ _ hevents hc => hp.passed hevents hc, hp.releases_le⟩

/-- The second of two repetitions executes a handler that has been given back, and gives it back
once more. -/
theorem second_repetition_holds_nothing :
    let step : Step := ⟨"1__A__I__f", "A", "I", "f", none, 1, false, .zero, 0⟩
    let script : Stub.Script := {}
    let r := step.execute script.world {} ⟨4096⟩ script.begin
    (∃ before after, r.events = before ++ .called (.execute ⟨8192⟩ 0 "") (1 : Int) :: after ∧
      ¬ Held ⟨8192⟩ before) ∧
      (askings r.events).length < (releases r.events).length := by
  intro step script r
  let again : List Event :=
    [.called (.canExecute ⟨8192⟩ 0) true, .called (.execute ⟨8192⟩ 0 "") (1 : Int),
      .called (.release "A" ⟨8192⟩ ⟨4096⟩) (), .slept 1000000000]
  have hevents : r.events = .called (.resolve "1__A__I__f") (0 : Int) ::
      .called (.getHandler "A" ⟨4096⟩) (⟨8192⟩ : Handle) :: again ++
        .called (.execute ⟨8192⟩ 0 "") (1 : Int) :: [.called (.release "A" ⟨8192⟩ ⟨4096⟩) ()] := by
    decide +kernel
  refine ⟨⟨_, _, hevents, fun hheld => ?_⟩, by rw [hevents]; decide⟩
  have hback : GivenBack "A" ⟨8192⟩ ⟨4096⟩ again := by simp [GivenBack, again]
  exact (held_iff rfl).mp hheld _ _ hback

end Step

end StepRunner
