import StepRunner.Activity
import StepRunner.Config.Basic
import StepRunner.Step.Basic

/-!
# Executing a step

A step is resolved to an id, gets a handler for its class, and is run once and then as often again
as it is to be repeated, until a result is not positive. A long-running step is started and polled
until it has a result or its time is up. The handler is given back after every repetition.
-/

namespace StepRunner

open Stub (Call Handle)
open Activity (call pause clock isInterrupted)

/-- Why one step failed without a result. -/
inductive StepFault where
  | unknownTest (name : String)
  | notExecutable (className : String) (id : Int)
  | timedOut (seconds : Nat)
  deriving DecidableEq, Repr

def StepFault.fault : StepFault → Fault
  | unknownTest name => { kind := .unknownTest, message := s!"Test stub not found for {name}" }
  | notExecutable className id =>
    { kind := .notExecutable
      message := s!"Cannot get class object {className} for test {id}" }
  | timedOut seconds =>
    { kind := .timeout
      message := s!"{seconds} seconds reached"
      help := some "The native operation was not cancelled and may still be running" }

/-- Why a run cannot go on. -/
inductive Halt where
  | interrupted
  /-- A deadline lies beyond the last moment that can be told; the program breaks down. -/
  | clockOverflow
  deriving DecidableEq, Repr

def interruption : Fault := { kind := .interrupted, message := "Run aborted by operator" }

/-- How one repetition went. -/
inductive Attempt where
  | result (code : Int)
  | timedOut
  | halted (h : Halt)
  deriving DecidableEq, Repr

/-- How the repetitions of a step went. -/
inductive Ending where
  | result (code : Int)
  | failed (f : StepFault)
  | halted (h : Halt)
  deriving DecidableEq, Repr

/-- The verdict on a step that did not halt the run. -/
structure Verdict where
  passed : Bool
  fault : Option StepFault
  deriving DecidableEq, Repr

/-- Only a positive result passes. -/
def Ending.verdict : Ending → Except Halt Verdict
  | .result code => .ok ⟨0 < code, none⟩
  | .failed f => .ok ⟨false, some f⟩
  | .halted h => .error h

/-- Whether the record of a step with this ending says that it passed. -/
def Ending.passes (e : Ending) : Bool :=
  match e.verdict with
  | .ok v => v.passed
  | .error _ => false

/-- Seconds that can be told. -/
def secondLimit : Nat := 9223372036854775808

/-- The moment at which a wait is over, if it can be told. -/
def deadline? (now : Nat) (timeout : Duration) : Option Nat :=
  if (now + timeout.nanos) / 1000000000 < secondLimit then some (now + timeout.nanos) else none

namespace Step

variable {ω : Type}

/-- Behind a poll without a result and a nap less time is left. -/
theorem left_lt_of_nap (W : World ω) {deadline : Nat} {w w₁ : ω}
    (hpoll : W.answer .poll w = (none, w₁)) (hearly : W.now w₁ < deadline) (nap : Nat) :
    deadline - W.now (W.sleep nap w₁) < deadline - W.now w := by
  have hanswer : W.now w ≤ W.now w₁ := by
    have hnow := W.now_answer .poll w
    rwa [hpoll] at hnow
  have hnap := W.now_lt_nap hpoll nap
  omega

/-- Polls until there is a result, the flag is raised or the deadline has come. Between two polls
it sleeps for the interval, or for the time that is left if that is less. -/
def awaitResult (W : World ω) (interval deadline : Nat) (w : ω) : Ran ω Attempt :=
  let polled := call W .poll w
  match _hvalue : polled.value with
  | some code => { polled with value := .result code }
  | none =>
    if W.raised polled.state then { polled with value := .halted .interrupted }
    else if _hlate : deadline ≤ W.now polled.state then { polled with value := .timedOut }
    else
      let nap := min interval (deadline - W.now polled.state)
      let rest := awaitResult W interval deadline (W.sleep nap polled.state)
      ⟨rest.value, polled.events ++ .slept nap :: rest.events, rest.state⟩
termination_by deadline - W.now w
decreasing_by
  exact left_lt_of_nap W (Prod.ext _hvalue rfl) (Nat.lt_of_not_le _hlate) nap

/-- One turn of `awaitResult`, without the facts that end the recursion. -/
theorem awaitResult_eq (W : World ω) (interval deadline : Nat) (w : ω) :
    awaitResult W interval deadline w =
      let polled := call W .poll w
      match polled.value with
      | some code => { polled with value := .result code }
      | none =>
        if W.raised polled.state then { polled with value := .halted .interrupted }
        else if deadline ≤ W.now polled.state then { polled with value := .timedOut }
        else
          let nap := min interval (deadline - W.now polled.state)
          let rest := awaitResult W interval deadline (W.sleep nap polled.state)
          ⟨rest.value, polled.events ++ .slept nap :: rest.events, rest.state⟩ := by
  rw [awaitResult]
  split <;> next hvalue => simp only [hvalue, dite_eq_ite]

/-- Starts a test and waits for its result. -/
def runPolled (W : World ω) (config : Config) (handler : Handle) (id : Int) (arg : String) :
    Activity ω Attempt := do
  let _ ← call W (.start handler id arg)
  match deadline? (← clock W) config.timeout with
  | none => return .halted .clockOverflow
  | some deadline => awaitResult W config.pollInterval.nanos deadline

def runBlocking (W : World ω) (handler : Handle) (id : Int) (arg : String) :
    Activity ω Attempt := do
  return .result (← call W (.execute handler id arg))

/-- What one step is run with. -/
structure Setting where
  config : Config
  step : Step
  context : Handle
  id : Int
  handler : Handle

/-- One repetition, without giving back the handler. -/
def Setting.attempt (W : World ω) (s : Setting) : Activity ω Attempt :=
  if s.config.isLongRunning s.step.name then
    runPolled W s.config s.handler s.id s.step.configArg
  else runBlocking W s.handler s.id s.step.configArg

/-- A repetition and, while results are positive, `left` more. Gives the number of repetitions
begun so far, `attempts` of them before. -/
def Setting.repetitions (W : World ω) (s : Setting) (left : Nat) (attempts : UInt32) :
    Activity ω (Ending × UInt32) := do
  match ← s.attempt W with
  | .halted .clockOverflow => return (.halted .clockOverflow, attempts + 1)
  | .halted .interrupted =>
    call W (.release s.step.className s.handler s.context)
    return (.halted .interrupted, attempts + 1)
  | .timedOut =>
    call W (.release s.step.className s.handler s.context)
    return (.failed (.timedOut s.config.timeout.seconds), attempts + 1)
  | .result code =>
    call W (.release s.step.className s.handler s.context)
    match left with
    | 0 => return (.result code, attempts + 1)
    | left + 1 =>
      if code ≤ 0 then return (.result code, attempts + 1)
      else
        pause W s.config.repeatPause.nanos
        if ← isInterrupted W then return (.halted .interrupted, attempts + 1)
        else s.repetitions W left (attempts + 1)

/-- Runs a step up to its ending, with the number of repetitions begun. -/
def perform (W : World ω) (config : Config) (context : Handle) (step : Step) :
    Activity ω (Ending × UInt32) := do
  let id ← call W (.resolve step.name)
  if id < 0 then return (.failed (.unknownTest step.name), 0)
  else if ← isInterrupted W then return (.halted .interrupted, 0)
  else
    let handler ← call W (.getHandler step.className context)
    if handler.isNull then return (.failed (.notExecutable step.className id), 0)
    else if ← call W (.canExecute handler id) then
      Setting.repetitions W ⟨config, step, context, id, handler⟩ step.repeats.toNat 0
    else return (.failed (.notExecutable step.className id), 0)

/-- A step with its ending on record. A breakdown leaves no time for a record. -/
def recordEnding (step : Step) (e : Ending) (elapsed : Duration) (attempts : UInt32) : Step :=
  match e with
  | .halted .clockOverflow => step
  | _ => step.record e.passes elapsed attempts

/-- Runs a step and records on it what came of it. -/
def execute (W : World ω) (config : Config) (context : Handle) (step : Step) :
    Activity ω (Except Halt Verdict × Step) := do
  let started ← clock W
  let (ending, attempts) ← step.perform W config context
  let elapsed : Duration := ⟨(← clock W) - started⟩
  return (ending.verdict, step.recordEnding ending elapsed attempts)

end Step

end StepRunner
