import ScriptCore.Operation.Attributes

/-!
# Operations on errors, handlers and running calls

These read the call stack and the errors being handled, but change neither.
-/

namespace ScriptCore

/-- An error with everything that is known about it, as a tuple. -/
def Error.inspect (error : Error) : Value :=
  .tuple [.type error.type, .str error.message, error.payload, .ofNames error.backtrace,
    .type error.cause.defaultType, .bool error.cause.isBinding]

namespace ErrorOp

/-- Fail unless a condition holds. -/
def assertThat (world : World) (holds : Bool) (message : Option Value) :
    Except Error (Value × World) :=
  if holds then .ok (.none, world)
  else .error (.assertionFailed world.names world.heap message)

def perform (machine : Machine) (op : ErrorOp) (operands : List Value) :
    Except Error (Value × World) :=
  let world := machine.world
  let reply (value : Value) : Except Error (Value × World) := .ok (value, world)
  match op, operands with
  | raise, [value] => .error (world.raiseValue value)
  | raiseNew ref, [payload] => do
      let type ← ref.resolve world.types
      .error (world.raise type payload)
  | reraise, [] => .error machine.reraise
  | assert, [.bool holds] => assertThat world holds none
  | assert, [.bool holds, message] => assertThat world holds (some message)
  | current, [] =>
      match machine.current? with
      | some error => .ok (world.allocate (world.heap.newError error))
      | none => reply .none
  | handlingDepth, [] => reply (.ofNat machine.handling.length)
  | callDepth, [] => reply (.ofNat machine.calls.depth)
  | callLimit, [] => reply (.ofOption (machine.calls.limit.map .ofNat))
  | backtrace, [] => reply (.ofNames machine.calls.frames)
  | inspect, [value] =>
      match value.asError with
      | some error => reply error.inspect
      | none => .error (world.mismatch "Exception" value)
  | summary, [] => reply (.str machine.diagnostic)
  | _, _ => .error (.wrongOperands operands)

end ErrorOp

end ScriptCore
