import ScriptCore.Builtin.Collections
import ScriptCore.Operation.Attributes

/-!
# Operations on the contents of values
-/

namespace ScriptCore

namespace World

/-- Require an object of whatever payload. -/
def expectObject (world : World) (value : Value) : Except Error Identity :=
  match value with
  | .object id _ => .ok id
  | _ => .error (world.mismatch "object" value)

/-- Add an item to a list object; says whether the object is a list. -/
def push (world : World) (id : Identity) (item : Value) : Bool × World :=
  match world.heap.payload id with
  | .list items => (true, world.setPayload id (.list (items ++ [item])))
  | _ => (false, world)

end World

namespace ValueOp

def perform (world : World) (op : ValueOp) (operands : List Value) :
    Except Error (Value × World) :=
  let reply (value : Value) : Except Error (Value × World) := .ok (value, world)
  match op, operands with
  | repr, [value] => reply (.str (world.repr value))
  | display, [value] => reply (.str (world.display value))
  | plainText, [value] => reply (.str (value.repr TypeId.builtinName world.heap))
  | equal, [left, right] => reply (.bool (left.equal right))
  | truthy, [value] => reply (.bool (world.heap.isTruthy value))
  | help, [value] => reply (.ofText (world.help value))
  | mappingGet, [target, key] => do
      let (_, mapping) ← world.expectMapping target
      reply (.ofOption (mapping.get? key))
  | mappingInsert, [target, key, value] => do
      let (id, mapping) ← world.expectMapping target
      return (.none, world.setPayload id (.mapping (mapping.insert key value)))
  | mappingContains, [target, key] => do
      let (_, mapping) ← world.expectMapping target
      reply (.bool (mapping.contains key))
  | mappingErase, [target, key] => do
      let (id, mapping) ← world.expectMapping target
      let (found, left) := mapping.remove key
      return (.ofOption found, world.setPayload id (.mapping left))
  | mappingSize, [target] => do
      let (_, mapping) ← world.expectMapping target
      reply (.ofNat mapping.size)
  | mappingIsEmpty, [target] => do
      let (_, mapping) ← world.expectMapping target
      reply (.bool mapping.isEmpty)
  | listPush, [target, item] => do
      let (pushed, world) := world.push (← world.expectObject target) item
      return (.bool pushed, world)
  | listGet, [target, index] => do
      let _ ← world.expectObject target
      match index with
      | .int n =>
          let items := (world.heap.list? target).getD []
          reply (.ofOption (if n < 0 then none else items[n.toInt.toNat]?))
      | _ => .error (world.mismatch "int" index)
  | listItems, [target] => do
      let _ ← world.expectObject target
      reply (.ofOption ((world.heap.list? target).map .tuple))
  | length, [target] => do
      let _ ← world.expectObject target
      reply (.ofOption ((world.heap.length? target).map .ofNat))
  | _, _ => .error (.wrongOperands operands)

end ValueOp

end ScriptCore
