import StepRunner.Proofs.Step.Polling
import StepRunner.Proofs.Step.Verdict
import StepRunner.Step.Compile
import StepRunner.Stub.ByName

/-!
# Counting repetitions

The repetitions begun are counted in 32 bits, and so is how often a step is to be repeated. One
repetition more than that count can tell makes it start again at 0 (`execute_counts_attempts`);
such a step can be written (`attempts_of_longest`).
-/

namespace StepRunner.Step

open Stub (Call Handle)
open Activity (bind_of_eq call_of_answer isInterrupted_bind)

variable {ω : Type} {W : World ω} {w : ω}

/-- The repetitions begun are counted in 32 bits, and the count is recorded unless the program breaks
down. -/
theorem counted_of_execute (W : World ω) (config : Config) (context : Handle) (step : Step)
    (w : ω) :
    let r := step.execute W config context w
    let counted := (step.perform W config context w).value.2
    counted = UInt32.ofNat (begun r.events).length ∧
      (begun r.events).length ≤ step.repeats.toNat + 1 ∧
      (r.value.1 ≠ .error .clockOverflow → r.value.2.attempts = counted) ∧
      (r.value.1 = .error .clockOverflow → r.value.2 = step) := by
  intro r counted
  obtain ⟨e, n, es, w₁, hperform, hp, hrun⟩ := step.execute_performed (W := W) config context w
  have hcounted : counted = n := congrArg (fun p => p.value.2) hperform
  have hr : r = ⟨(e.verdict, step.recordEnding e _ n), es, w₁⟩ := hrun
  rw [hr, hcounted]
  refine ⟨hp.attempts_eq.1, hp.attempts_eq.2, fun hgo => ?_, fun hhalt => ?_⟩
  · rw [recordEnding_of_ne fun he => hgo (Ending.verdict_eq_error.mpr he)]
    rfl
  · obtain rfl := Ending.verdict_eq_error.mp hhalt
    rfl

/-- The repetitions begun are counted in 32 bits. The count is true unless a step with the greatest
repeat count goes through all its repetitions; then it is 0. It is what the step has on record,
except that a breakdown leaves the step as it was. -/
theorem execute_counts_attempts (W : World ω) (config : Config) (context : Handle) (step : Step)
    (w : ω) :
    let r := step.execute W config context w
    let count := (begun r.events).length
    let counted := (step.perform W config context w).value.2
    counted.toNat = count % UInt32.size ∧ count ≤ step.repeats.toNat + 1 ∧
      (counted.toNat = count ↔ count ≠ UInt32.size) ∧
      (count = UInt32.size → step.repeats.toNat = UInt32.size - 1 ∧ counted = 0) ∧
      (r.value.1 ≠ .error .clockOverflow → r.value.2.attempts = counted) ∧
      (r.value.1 = .error .clockOverflow → r.value.2 = step) := by
  intro r count counted
  obtain ⟨hcounted, hle, hrecorded⟩ : counted = UInt32.ofNat count ∧
      count ≤ step.repeats.toNat + 1 ∧ _ := counted_of_execute W config context step w
  have hmod : counted.toNat = count % UInt32.size := by
    rw [hcounted]
    rfl
  have hrepeats : step.repeats.toNat < UInt32.size := step.repeats.toNat_lt_size
  refine ⟨hmod, hle, ?_, fun hfull => ⟨by omega, by rw [hcounted, hfull]; rfl⟩, hrecorded⟩
  rw [hmod]
  constructor
  · intro htrue hfull
    rw [hfull, Nat.mod_self] at htrue
    cases htrue
  · intro hshort
    exact Nat.mod_eq_of_lt (by omega)

/-! ### Steps that are always passed -/

namespace Setting

variable {s : Setting} {P : ω → Prop}

/-- While `P` holds every repetition is passed, nothing interrupts the step, and `P` still holds
when the next repetition begins. -/
structure AlwaysPasses (W : World ω) (s : Setting) (P : ω → Prop) : Prop where
  passes : ∀ {w r}, P w → s.Attempted W w r → ∃ code, r.value = .result code ∧ 0 < code ∧
    P (s.afterwards W r.state)
  low : ∀ {w}, P w → W.raised w = false

/-- Repetitions that are always passed go on to the last, which gives the result. -/
theorem AlwaysPasses.goes_on (hs : s.AlwaysPasses W P) {left : Nat} {n : UInt32}
    {r : Ran ω (Ending × UInt32)} (h : s.Repeated W left n w r) (hw : P w) :
    (begun r.events).length = left + 1 ∧ r.value.1.verdict = .ok ⟨true, none⟩ := by
  have hback : s.giveBack.begins? = none := rfl
  induction h with
  | broke ha =>
    obtain ⟨code, hcode, -⟩ := hs.passes hw ha
    cases hcode
  | @last left _ _ _ _ _ es e ha he _ =>
    obtain ⟨code, rfl, hcode, -⟩ := hs.passes hw ha
    have hes : begun es = [s.handler] := ha.begun_eq
    dsimp only [ending?] at he
    split at he
    · next hlast =>
      have hleft := hlast.resolve_right (Int.not_le.mpr hcode)
      obtain rfl := Option.some.inj he
      simp [hes, hback, hleft, Ending.verdict, hcode]
    · cases he
  | interrupted ha _ hanswer hnap hraised =>
    obtain ⟨-, -, -, hnext⟩ := hs.passes hw ha
    rw [afterwards, hanswer, hnap] at hnext
    rw [hs.low hnext] at hraised
    cases hraised
  | @again left _ _ _ _ _ _ es r ha _ hanswer hnap _ _ ih =>
    obtain ⟨-, -, -, hnext⟩ := hs.passes hw ha
    rw [afterwards, hanswer, hnap] at hnext
    have hes : begun es = [s.handler] := ha.begun_eq
    obtain ⟨hcount, hverdict⟩ := ih hnext
    refine ⟨?_, hverdict⟩
    simp [hes, hback, hcount, Nat.add_comm]

end Setting

/-- A step with a handler that can execute it goes on to its repetitions. -/
theorem perform_of_accepted {config : Config} {context handler : Handle} {step : Step} {id : Int}
    {w₁ w₂ w₃ : ω} (hid : W.answer (.resolve step.name) w = (id, w₁)) (hpos : 0 ≤ id)
    (hlow : W.raised w₁ = false)
    (hget : W.answer (.getHandler step.className context) w₁ = (handler, w₂))
    (hnull : handler.isNull = false) (hcan : W.answer (.canExecute handler id) w₂ = (true, w₃)) :
    step.perform W config context w =
      (Setting.repetitions W ⟨config, step, context, id, handler⟩ step.repeats.toNat 0 w₃).behind
        [.called (.resolve step.name) id, .called (.getHandler step.className context) handler,
          .called (.canExecute handler id) true] := by
  rw [perform, bind_of_eq (call_of_answer hid), if_neg (Int.not_lt.mpr hpos), isInterrupted_bind,
    hlow, if_neg Bool.false_ne_true, bind_of_eq (call_of_answer hget), hnull,
    if_neg Bool.false_ne_true, bind_of_eq (call_of_answer hcan), if_pos rfl]
  rfl

/-- A step that is always passed goes through all its repetitions and is passed. -/
theorem execute_of_alwaysPasses {config : Config} {context handler : Handle} {step : Step} {id : Int}
    {w₁ w₂ w₃ : ω} {P : ω → Prop} (hid : W.answer (.resolve step.name) w = (id, w₁)) (hpos : 0 ≤ id)
    (hlow : W.raised w₁ = false)
    (hget : W.answer (.getHandler step.className context) w₁ = (handler, w₂))
    (hnull : handler.isNull = false) (hcan : W.answer (.canExecute handler id) w₂ = (true, w₃))
    (hs : Setting.AlwaysPasses W ⟨config, step, context, id, handler⟩ P) (hw : P w₃) :
    let r := step.execute W config context w
    (begun r.events).length = step.repeats.toNat + 1 ∧ r.value.1 = .ok ⟨true, none⟩ := by
  obtain ⟨hcount, hverdict⟩ :=
    hs.goes_on (Setting.repetitions_repeated _ step.repeats.toNat 0 w₃) hw
  rw [execute_of_perform (perform_of_accepted hid hpos hlow hget hnull hcan)]
  exact ⟨by simpa [Call.begins?] using hcount, hverdict⟩

/-! ### A step that is repeated as often as can be told -/

def longest : Step := ⟨"1__A__I__f", "A", "I", "f", none, 4294967295, false, .zero, 0⟩

theorem longest_alwaysPasses : Setting.AlwaysPasses (Stub.ByName.library.world none)
    ⟨{}, longest, ⟨4096⟩, 11, ⟨8192⟩⟩ fun w => w.current = longest.name ∧ w.raised = false where
  passes := fun {w r} ⟨hcurrent, hlow⟩ ha => by
    cases ha with
    | blocking _ ha =>
      have hresult : Stub.ByName.resultOf w.current = 1 := by
        rw [hcurrent]
        decide +kernel
      have hkill : (w.raised || Stub.ByName.has "Kill" w.current) = false := by
        rw [hcurrent, hlow]
        decide +kernel
      cases ha
      exact ⟨1, congrArg Attempt.result hresult, Int.one_pos, hcurrent, hkill⟩
    | unlimited hlong | polled hlong =>
      have hshort : ({} : Config).isLongRunning longest.name = false := by decide +kernel
      cases hshort.symm.trans hlong
  low := And.right

theorem execute_longest :
    let r := longest.execute (Stub.ByName.library.world none) {} ⟨4096⟩ {}
    (begun r.events).length = 4294967296 ∧ r.value.1 = .ok ⟨true, none⟩ := by
  let W := Stub.ByName.library.world none
  let w : Stub.ByName.State := { current := longest.name }
  have hid : W.answer (.resolve longest.name) {} = ((11 : Int), w) := by decide +kernel
  have hget : W.answer (.getHandler longest.className ⟨4096⟩) w = (⟨8192⟩, w) := by decide +kernel
  have hcan : W.answer (.canExecute ⟨8192⟩ 11) w = (true, w) := by decide +kernel
  have hrepeats : longest.repeats.toNat = 4294967295 := by decide
  obtain ⟨hcount, hverdict⟩ :=
    execute_of_alwaysPasses hid (by decide) rfl hget rfl hcan longest_alwaysPasses ⟨rfl, rfl⟩
  rw [hrepeats] at hcount
  exact ⟨hcount, hverdict⟩

/-- A line may ask for as many repetitions as can be told beyond the first. If all of them are
passed, they are counted as none. -/
theorem attempts_of_longest :
    let line : RunFile.Instruction :=
      ⟨"1__A__I__f,,4294967295", ⟨"a.run"⟩, 1, ⟨0, 22⟩, ⟨"a.run", "1__A__I__f,,4294967295\n"⟩⟩
    compile ⟨[], []⟩ ⟨"."⟩ line = .ok longest ∧
      (begun (longest.execute (Stub.ByName.library.world none) {} ⟨4096⟩ {}).events).length =
        4294967296 ∧
      (longest.execute (Stub.ByName.library.world none) {} ⟨4096⟩ {}).value.2.attempts = 0 := by
  let W := Stub.ByName.library.world none
  obtain ⟨hcounted, -, hrecorded, -⟩ := counted_of_execute W {} ⟨4096⟩ longest {}
  obtain ⟨hcount, hverdict⟩ := execute_longest
  have hgo : (longest.execute W {} ⟨4096⟩ {}).value.1 ≠ .error .clockOverflow := by
    rw [hverdict]
    nofun
  refine ⟨by decide +kernel, hcount, (hrecorded hgo).trans ?_⟩
  rw [hcounted, hcount]
  rfl

end StepRunner.Step
