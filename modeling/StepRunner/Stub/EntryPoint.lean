/-!
# Entry points of a stub library

The names a stub library exports, in the order in which they are resolved: the first three when
the library is loaded, the others when it is bound.
-/

namespace StepRunner.Stub

inductive EntryPoint where
  | init
  | shutdown
  | baseObject
  | testId
  | canExecute
  | execute
  | threadedExecute
  | threadedResult
  | submitClass
  | getClass
  deriving DecidableEq, Repr

namespace EntryPoint

def symbol : EntryPoint → String
  | init => "Init"
  | shutdown => "Shutdown"
  | baseObject => "GetBaseObject"
  | testId => "GetUTID"
  | canExecute => "GenericCanExecute"
  | execute => "GenericExecute"
  | threadedExecute => "ThreadedExecute"
  | threadedResult => "GetThreadedExecuteResult"
  | submitClass => "SubmitClass"
  | getClass => "GetClass"

def onLoad : List EntryPoint := [init, shutdown, baseObject]

def onBind : List EntryPoint :=
  [testId, canExecute, execute, threadedExecute, threadedResult, submitClass, getClass]

def ofSymbol? (s : String) : Option EntryPoint := (onLoad ++ onBind).find? (·.symbol = s)

theorem mem_onLoad_or_onBind (e : EntryPoint) : e ∈ onLoad ++ onBind := by
  cases e <;> decide

end EntryPoint

end StepRunner.Stub
