import ScriptCore.Call

/-!
# Interpreters that perform operations in another way

How operations are performed is a parameter here, besides calls, which are one already.
With the operations as they are this is the interpreter; with other ones it goes the same
way as long as they do the same.
-/

namespace ScriptCore

/-- A way to perform operations. -/
abbrev Performer := Operation → List Value → Computation Activation Value

/-! ## Expressions -/

namespace Expr

section

variable (perform : Performer) (call : Caller)

mutual

/-- Evaluate an expression whose operations are performed in the given way. -/
def evalWith : Expr → Computation Activation Value
  | .literal written => .pure written.value
  | .sequence items => evalLastWith items .none
  | .branch condition yes no => do
      let value ← evalWith condition
      if ← Activation.isTrue value then evalWith yes else evalWith no
  | .loop count body => do
      Computation.repeated count (evalWith body)
      return .none
  | .call form operands => do
      let values ← evalAllWith operands
      Activation.onMachine (call.perform form values)
  | .apply operation operands => do
      let values ← evalAllWith operands
      perform operation values
  | .define name declarations doc body defaults => do
      let values ← evalAllWith defaults
      Activation.define name declarations doc body values
  | .guarded forms binding body handlers => do
      let clauses ← Activation.clauses forms
      Activation.guarded clauses (evalWith body) fun index error => do
        Activation.bindError binding error
        evalAtWith handlers index

def evalLastWith : List Expr → Value → Computation Activation Value
  | [], last => .pure last
  | item :: rest, _ => do
      let value ← evalWith item
      evalLastWith rest value

def evalAllWith : List Expr → Computation Activation (List Value)
  | [] => .pure []
  | item :: rest => do
      let value ← evalWith item
      let values ← evalAllWith rest
      return value :: values

def evalAtWith : List Expr → Nat → Computation Activation Value
  | [], _ => .pure .none
  | item :: _, 0 => evalWith item
  | _ :: rest, index + 1 => evalAtWith rest index

end

end

mutual

theorem evalWith_perform (call : Caller) :
    ∀ expr : Expr, expr.evalWith Activation.perform call = expr.eval call
  | .literal _ => rfl
  | .sequence items => evalLastWith_perform call items .none
  | .branch condition yes no => by
      rw [evalWith, eval, evalWith_perform call condition, evalWith_perform call yes,
        evalWith_perform call no]
  | .loop count body => by rw [evalWith, eval, evalWith_perform call body]
  | .call form operands => by rw [evalWith, eval, evalAllWith_perform call operands]
  | .apply operation operands => by rw [evalWith, eval, evalAllWith_perform call operands]
  | .define name declarations doc body defaults => by
      rw [evalWith, eval, evalAllWith_perform call defaults]
  | .guarded forms binding body handlers => by
      rw [evalWith, eval, evalWith_perform call body]
      simp only [evalAtWith_perform call handlers]

theorem evalLastWith_perform (call : Caller) : ∀ (items : List Expr) (last : Value),
    evalLastWith Activation.perform call items last = evalLast call items last
  | [], _ => rfl
  | item :: rest, last => by
      rw [evalLastWith, evalLast, evalWith_perform call item]
      simp only [evalLastWith_perform call rest]

theorem evalAllWith_perform (call : Caller) : ∀ items : List Expr,
    evalAllWith Activation.perform call items = evalAll call items
  | [] => rfl
  | item :: rest => by
      rw [evalAllWith, evalAll, evalWith_perform call item, evalAllWith_perform call rest]

theorem evalAtWith_perform (call : Caller) : ∀ (items : List Expr) (index : Nat),
    evalAtWith Activation.perform call items index = evalAt call items index
  | [], _ => rfl
  | item :: _, 0 => evalWith_perform call item
  | _ :: rest, index + 1 => evalAtWith_perform call rest index

end

end Expr

/-! ## Calls -/

namespace Machine

/-- Bind the arguments and evaluate the body in a new frame. -/
def runBodyWith (perform : Performer) (call : Caller) (function : FunctionDef)
    (arguments : Arguments) : Computation Machine Value := do
  let bound ← update (bindArguments function arguments)
  let body ← Computation.inspect fun machine =>
    match machine.world.body? function.body with
    | some (.user body) => .ok body
    | _ => .error (.ofCause (.notCallable "function"))
  inFrame (.ofArguments function.name bound) (body.evalWith perform call)

/-- Call a value that is not a bound method. -/
def callUnboundWith (perform : Performer) (call : Caller) (callee : Value)
    (arguments : Arguments) : Computation Machine Value := do
  match callee with
  | .function id =>
      let function ← Computation.inspect fun machine =>
        match machine.world.heap.functions.get? id with
        | some function => .ok function
        | none => .error (.ofCause (.notCallable "function"))
      within function.name (runBodyWith perform call function arguments)
  | .native native => callNative call native arguments
  | .type type => construct call type arguments
  | other =>
      Computation.inspect fun machine =>
        .error (.ofCause (.notCallable (machine.world.typeNameOf other)))

/-- Call a value, in whose run operations are performed in the given way. -/
def callWith (perform : Performer) : Nat → Caller
  | 0, _, _ => .exhausted
  | depth + 1, callee, arguments =>
      let (callee, arguments) := unbind callee arguments
      callUnboundWith perform (callWith perform depth) callee arguments

theorem callUnboundWith_perform (call : Caller) (callee : Value) (arguments : Arguments) :
    callUnboundWith Activation.perform call callee arguments =
      callUnbound call callee arguments := by
  cases callee with
  | function id =>
      simp only [callUnboundWith, runBodyWith, Expr.evalWith_perform]
      rfl
  | _ => rfl

theorem callWith_perform (depth : Nat) : callWith Activation.perform depth = call depth := by
  induction depth with
  | zero => rfl
  | succ depth ih =>
      funext callee arguments
      rw [callWith, call, ih]
      exact callUnboundWith_perform _ _ _

end Machine

end ScriptCore
