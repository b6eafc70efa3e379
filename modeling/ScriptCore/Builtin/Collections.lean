import ScriptCore.Builtin.Arithmetic

/-!
# Dictionaries, lists and tuples

Methods of the three container types.  An index counts from the front, a
negative one from the back; only integers are indexes.
-/

namespace ScriptCore

/-! ## Indexes -/

/-- An index counted from the front.  A negative one is added to the length, in words. -/
def wrapIndex (index : Int64) (length : Nat) : Int64 :=
  if index < 0 then index + Word.ofNat length else index

/-- The place that an index means in a sequence of so many items, if there is such a place. -/
def indexIn (index : Int64) (length : Nat) : Option (Fin length) :=
  let place := (wrapIndex index length).toInt
  if inside : 0 ≤ place ∧ place.toNat < length then some ⟨place.toNat, inside.2⟩ else none

namespace World

/-- The place in a sequence of so many items that a value means as an index. -/
def placeOf (world : World) (index : Value) (length : Nat) : Except Error (Fin length) :=
  match index with
  | .int n =>
      match indexIn n length with
      | some place => .ok place
      | none => .error (.ofCause (.indexOutOfRange n length))
  | _ => .error (world.mismatch "int" index)

/-- The mapping of a dictionary, and the identity under which it is kept. -/
def expectMapping (world : World) (value : Value) : Except Error (Identity × Mapping) :=
  match value, world.heap.mapping? value with
  | .object id _, some mapping => .ok (id, mapping)
  | _, _ => .error (world.mismatch "dict" value)

/-- The items of a list, and the identity under which they are kept. -/
def expectList (world : World) (value : Value) : Except Error (Identity × List Value) :=
  match world.expectType value .list with
  | .error error => .error error
  | .ok () =>
      match value, world.heap.list? value with
      | .object id _, some items => .ok (id, items)
      | _, _ => .error (world.mismatch "list" value)

def expectTuple (world : World) (value : Value) : Except Error (List Value) :=
  match value with
  | .tuple items => .ok items
  | _ => .error (world.mismatch "tuple" value)

/-- The number of items of a list or dictionary. -/
def containerLength (world : World) (value : Value) : Except Error Value :=
  match world.heap.length? value with
  | some length => .ok (.ofNat length)
  | none => .error (world.mismatch "dict" value)

/-- Put new contents into an object. -/
def setPayload (world : World) (id : Identity) (payload : Payload) : World :=
  { world with heap := world.heap.setPayload id payload }

end World

/-! ## Methods -/

namespace DictMethod

def methodName : DictMethod → Name
  | getItem => "__getitem__"
  | setItem => "__setitem__"
  | contains => "__contains__"
  | length => "__len__"
  | get => "get"

def arity : DictMethod → Option Nat
  | getItem => some 2
  | setItem => some 3
  | contains => some 2
  | length => some 1
  | get => none

/-- The least number of arguments. -/
def required (method : DictMethod) : Nat := method.arity.getD 2

def run (world : World) (method : DictMethod) (arguments : List Value) :
    Except Error (Value × World) :=
  match method, arguments with
  | getItem, [receiver, key] => do
      let (_, mapping) ← world.expectMapping receiver
      match mapping.get? key with
      | some value => return (value, world)
      | none => .error (.keyNotFound world.names world.heap key)
  | setItem, [receiver, key, value] => do
      let (id, mapping) ← world.expectMapping receiver
      return (.none, world.setPayload id (.mapping (mapping.insert key value)))
  | contains, [receiver, key] => do
      let (_, mapping) ← world.expectMapping receiver
      return (.bool (mapping.contains key), world)
  | length, [receiver] => do
      return (← world.containerLength receiver, world)
  | get, [receiver, key] => do
      let (_, mapping) ← world.expectMapping receiver
      return (.ofOption (mapping.get? key), world)
  | get, [receiver, key, fallback] => do
      let (_, mapping) ← world.expectMapping receiver
      return ((mapping.get? key).getD fallback, world)
  | _, _ => .error (.wrongArity method.methodName method.required arguments)

end DictMethod

namespace ListMethod

def methodName : ListMethod → Name
  | append => "append"
  | getItem => "__getitem__"
  | length => "__len__"

def arity : ListMethod → Nat
  | append => 2
  | getItem => 2
  | length => 1

def run (world : World) (method : ListMethod) (arguments : List Value) :
    Except Error (Value × World) :=
  match method, arguments with
  | append, [receiver, item] => do
      let (id, items) ← world.expectList receiver
      return (.none, world.setPayload id (.list (items ++ [item])))
  | getItem, [receiver, index] => do
      let (_, items) ← world.expectList receiver
      let place ← world.placeOf index items.length
      -- The list itself is asked for the item, and could refuse once more.
      match items[place.val]? with
      | some item => return (item, world)
      | none => .error (.ofCause (.indexOutOfRange (Word.ofNat place) items.length))
  | length, [receiver] => do
      return (← world.containerLength receiver, world)
  | _, _ => .error (.wrongArity method.methodName method.arity arguments)

end ListMethod

namespace TupleMethod

def methodName : TupleMethod → Name
  | getItem => "__getitem__"
  | length => "__len__"

def arity : TupleMethod → Nat
  | getItem => 2
  | length => 1

def run (world : World) (method : TupleMethod) (arguments : List Value) : Except Error Value :=
  match method, arguments with
  | getItem, [receiver, index] => do
      let items ← world.expectTuple receiver
      let place ← world.placeOf index items.length
      return items[place]
  | length, [receiver] => do
      let items ← world.expectTuple receiver
      return .ofNat items.length
  | _, _ => .error (.wrongArity method.methodName method.arity arguments)

end TupleMethod

end ScriptCore
