import ScriptCore.Operation.Attributes

/-!
# Operations that make values
-/

namespace ScriptCore

namespace Shape

/-- The contents of a new object. -/
def payload : Shape → Payload
  | plain => .plain
  | list => .list []
  | mapping => .mapping ∅

end Shape

namespace MakeOp

/-- Keys and values that alternate, as pairs. -/
def pairs : List Value → List (Value × Value)
  | key :: value :: rest => (key, value) :: pairs rest
  | _ => []

/-- A defined class as a value. -/
def classValue (made : TypeId × World) : Value × World :=
  (.type made.1, made.2)

def perform (world : World) (op : MakeOp) (operands : List Value) :
    Except Error (Value × World) :=
  match op, operands with
  | tuple, items => .ok (.tuple items, world)
  | list, items => .ok (world.allocate (world.heap.newList items))
  | dict, items => .ok (world.allocate (world.heap.newDict (.ofPairs (pairs items))))
  | object ref shape, [] => do
      let type ← ref.resolve world.types
      return world.allocate (world.heap.newObject type shape.payload)
  | typeValue ref, [] => do
      return (.type (← ref.resolve world.types), world)
  | boundMethod, [receiver, method] => .ok (.boundMethod receiver method, world)
  | error, [.type type, payload] =>
      .ok (world.allocate (world.heap.newError (.raised world.names world.heap type payload)))
  | native name arity doc, [] => .ok (world.defineNative name arity doc .collect)
  | defineClass name members, .none :: values =>
      .ok (classValue (world.defineClass name none (members.zip values)))
  | defineClass name members, .type parent :: values =>
      .ok (classValue (world.defineClass name (some parent) (members.zip values)))
  | _, _ => .error (.wrongOperands operands)

end MakeOp

end ScriptCore
