import ScriptCore.Builtin.Arithmetic

/-!
# Conversion

Calling a built-in type converts one argument, or gives the type's empty value
when there is none.
-/

namespace ScriptCore

namespace World

/-- The value of a built-in type without an argument. -/
def emptyOf (world : World) (type : TypeId) : Except Error (Value × World) :=
  let same (value : Value) : Except Error (Value × World) := .ok (value, world)
  if type = .type then .error (.ofCause (.nativeArity (world.types.typeName type) 1 0))
  else if type = .object then .ok (world.allocate (world.heap.newInstance .object))
  else if type = .none then same .none
  else if type = .bool then same (.bool false)
  else if type = .int then same (.int 0)
  else if type = .float then same (.float 0.0)
  else if type = .str then same (.str "")
  else if type = .tuple then same (.tuple [])
  else if type = .list then .ok (world.allocate (world.heap.newList []))
  else if type = .dict then .ok (world.allocate (world.heap.newDict ∅))
  else .error (.ofCause (.notCallable (world.types.typeName type)))

/-- The items of a sequence to be converted to `type`. -/
def itemsFor (world : World) (type : TypeId) (value : Value) : Except Error (List Value) :=
  match world.heap.sequence? value with
  | some items => .ok items
  | none => .error (world.mismatch (world.types.typeName type) value)

/-- A value converted to a built-in type. -/
def convertTo (world : World) (type : TypeId) (value : Value) : Except Error (Value × World) :=
  let mismatch := Except.error (world.mismatch (world.types.typeName type) value)
  let same (value : Value) : Except Error (Value × World) := .ok (value, world)
  if type = .type then same (.type value.typeOf)
  else if type = .bool then same (.bool (world.heap.isTruthy value))
  else if type = .int then
    match value, value.asInt with
    | .float x, _ => same (.int (Word.ofFloat x))
    | _, some n => same (.int n)
    | _, none => mismatch
  else if type = .float then
    match value.asFloat with
    | some x => same (.float x)
    | none => mismatch
  else if type = .str then same (.str (world.display value))
  else if type = .tuple then do
    same (.tuple (← world.itemsFor type value))
  else if type = .list then do
    return world.allocate (world.heap.newList (← world.itemsFor type value))
  else if type = .dict then
    match world.heap.mapping? value with
    | some mapping => .ok (world.allocate (world.heap.newDict (.ofPairs mapping.entries)))
    | none => mismatch
  else if type = .object ∨ type = .none then
    .error (.ofCause (.nativeArity (world.types.typeName type) 0 1))
  else .error (.ofCause (.notCallable (world.types.typeName type)))

/-- Call a built-in type with positional arguments. -/
def convert (world : World) (type : TypeId) (arguments : List Value) :
    Except Error (Value × World) :=
  match arguments with
  | [] => world.emptyOf type
  | [value] => world.convertTo type value
  | _ => .error (.wrongArity (world.types.typeName type) 1 arguments)

end World

end ScriptCore
