import ScriptCore.Operation.Attributes

/-!
# Operations on types
-/

namespace ScriptCore

namespace TypeOp

def perform (world : World) (op : TypeOp) (operands : List Value) :
    Except Error (Value × World) :=
  let types := world.types
  let reply (value : Value) : Except Error (Value × World) := .ok (value, world)
  let change (types : Registry) (value : Value) : Except Error (Value × World) :=
    .ok (value, { world with types })
  match op, operands with
  | register name parent, [] => do
      let (type, types) := types.register name (← parent.resolve types)
      change types (.type type)
  | setCapability name, [.type type, value] =>
      change (types.setCapability type name value) .none
  | eraseCapability ref name, [] => do
      let type ← ref.resolve types
      change (types.eraseCapability type name) (.ofOption (types.ownCapability type name))
  | setDoc ref text, [] => do
      change (types.setDoc (← ref.resolve types) text) .none
  | docOf ref, [] => do
      reply (.ofText (types.docOf (← ref.resolve types)))
  | resolve ref name, [] => do
      reply (.ofOption (types.resolve (← ref.resolve types) name))
  | ownCapability ref name, [] => do
      reply (.ofOption (types.ownCapability (← ref.resolve types) name))
  | parentOf ref, [] => do
      reply (.ofOption ((types.parentOf (← ref.resolve types)).map .type))
  | nameOf ref, [] => do
      reply (.ofText (types.nameOf (← ref.resolve types)))
  | typeName ref, [] => do
      reply (.str (types.typeName (← ref.resolve types)))
  | lookup name, [] => reply (.ofOption ((types.lookup name).map .type))
  | ancestors ref, [] => do
      reply (.tuple ((types.ancestors (← ref.resolve types)).map .type))
  | isSubtype ref ancestor, [] => do
      reply (.bool (types.isSubtype (← ref.resolve types) (← ancestor.resolve types)))
  | contains ref, [] => do
      reply (.bool (types.contains (← ref.resolve types)))
  | count, [] => reply (.ofNat types.size)
  | number ref, [] => do
      reply (.ofNat (← ref.resolve types).index)
  | typeOf, [value] => reply (.type value.typeOf)
  | typeNameOf, [value] => reply (.str (world.typeNameOf value))
  | isInstance ref, [value] => do
      reply (.bool (types.isInstance value (← ref.resolve types)))
  | _, _ => .error (.wrongOperands operands)

end TypeOp

end ScriptCore
