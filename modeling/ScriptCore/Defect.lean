/-!
# Broken assertions

A defect is a use of the call stack or of a try region in an order that cannot
arise when calls and regions are nested properly.
-/

namespace ScriptCore

/-- A broken assertion of the interpreter itself. -/
inductive Defect where
  | emptyCallStack
  | bodyExitOutsideArmed
  | raiseOutsideArmed
  | handlerExitWithoutHandler
deriving DecidableEq, Repr

namespace Defect

/-- The text that reports a broken assertion. -/
def message : Defect → String
  | emptyCallStack => "CallStack::pop() called on empty stack"
  | bodyExitOutsideArmed => "body exit outside armed region"
  | raiseOutsideArmed => "raise outside armed region"
  | handlerExitWithoutHandler => "handler exit without a running handler"

end Defect

end ScriptCore
