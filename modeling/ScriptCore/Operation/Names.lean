import ScriptCore.Operation.Attributes

/-!
# Operations on names

A frame and the global scope are changed together, because a frame writes the
names that it has declared global to the scope.
-/

namespace ScriptCore

namespace NameOp

def perform (frame : Frame) (world : World) (op : NameOp) (operands : List Value) :
    Except Error (Value × Frame × World) :=
  let reply (value : Value) : Except Error (Value × Frame × World) := .ok (value, frame, world)
  match op, operands with
  | resolve name, [] => do
      return (← world.loadName frame name, frame, world)
  | load name, [] => reply (.ofOption (frame.load world.globals name))
  | store name, [value] =>
      let (frame, globals) := frame.store world.globals name value
      .ok (value, frame, { world with globals })
  | declareGlobal name, [] => .ok (.none, frame.declareGlobal name, world)
  | isGlobal name, [] => reply (.bool (frame.isGlobal name))
  | unbind name, [] =>
      let (old, frame, globals) := frame.delete world.globals name
      .ok (.ofOption old, frame, { world with globals })
  | localOnly name, [] => reply (.ofOption (frame.local? name))
  | localCount, [] => reply (.ofNat frame.localCount)
  | functionName, [] => reply (.str frame.function)
  | globalGet name, [] => reply (.ofOption (world.globals.get? name))
  | globalSet name, [value] =>
      .ok (value, frame, { world with globals := world.globals.set name value })
  | globalHas name, [] => reply (.bool (world.globals.contains name))
  | globalErase name, [] =>
      .ok (.ofOption (world.globals.get? name), frame,
        { world with globals := world.globals.erase name })
  | globalCount, [] => reply (.ofNat world.globals.size)
  | builtin name, [] => reply (.ofOption (world.builtins.get? name))
  | setBuiltin name, [value] =>
      .ok (value, frame, { world with builtins := world.builtins.set name value })
  | _, _ => .error (.wrongOperands operands)

end NameOp

end ScriptCore
