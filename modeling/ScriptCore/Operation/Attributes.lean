import ScriptCore.Attributes

/-!
# Operations on attributes
-/

namespace ScriptCore

/-- Operands that do not fit an operation. -/
def Error.wrongOperands (operands : List Value) : Error :=
  .ofCause (.invalidSignature "operation" s!"{operands.length} operands do not fit")

/-- Names as a tuple of strings. -/
def Value.ofNames (names : List Name) : Value := .tuple (names.map .str)

namespace AttributeOp

def perform (world : World) (op : AttributeOp) (operands : List Value) :
    Except Error (Value × World) :=
  match op, operands with
  | get name, [value] => do
      return (← world.getAttribute value name, world)
  | getOr name, [value, fallback] => .ok (world.getAttributeOr value name fallback, world)
  | has name, [value] => .ok (.bool (world.hasAttribute value name), world)
  | set name, [target, value] => do
      return (.none, ← world.setAttribute target name value)
  | delete name, [target] => do
      return (.none, ← world.deleteAttribute target name)
  | ownNames, [value] => do
      return (.ofNames (Attributes.sortedNames (← world.attachedAttributes value)), world)
  | ownHas name, [value] => do
      return (.bool ((← world.attachedAttributes value).contains name), world)
  | ownCount, [value] => do
      return (.ofNat (← world.attachedAttributes value).size, world)
  | _, _ => .error (.wrongOperands operands)

end AttributeOp

end ScriptCore
