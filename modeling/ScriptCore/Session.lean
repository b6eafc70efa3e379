import ScriptCore.Call

/-!
# Sessions

A session evaluates expressions one after the other in the module frame of one
machine.  An error ends the expression that raised it, not the session.
-/

namespace ScriptCore

namespace Session

/-- Calls may be nested this deep; no host has the memory for more. -/
def nesting : Nat := 4611686018427387904

/-- The module frame of a fresh machine with the given limit of nested function calls. -/
def start (limit : Option Nat) : Activation :=
  { frame := { function := "" }, machine := .fresh { limit } }

/-- Evaluate one expression. -/
def step (activation : Activation) (expr : Expr) : Outcome Value × Activation :=
  (expr.eval (Machine.call nesting)).run activation

/-- Evaluate expressions in order, with the state after each. -/
def run (activation : Activation) : List Expr → List (Outcome Value × Activation)
  | [] => []
  | expr :: rest =>
      let result := step activation expr
      result :: run result.2 rest

end Session

end ScriptCore
