import ScriptCore.Mapping
import ScriptCore.Signature
import ScriptCore.Table

/-!
# The heap

The heap keeps what may change about a value: the contents of lists and
mappings and the attributes of objects and functions.  It also keeps the
definitions of functions.  Identities are handed out in order and never again.

An identity about which nothing is recorded belongs to a plain instance
without attributes.
-/

namespace ScriptCore

/-- What an object holds besides its attributes. -/
inductive Payload where
  /-- Nothing: a plain instance. -/
  | plain
  | mapping (mapping : Mapping)
  | list (items : List Value)

/-- The fixed part of a user function. -/
structure FunctionDef where
  name : Name
  signature : Signature
  doc : Option String
  body : BodyId

/-- The attributes of an object or a function. -/
abbrev Attributes := Table Name Value

/-- The names of attributes in the order of their code points. -/
def Attributes.sortedNames (attributes : Attributes) : List Name :=
  attributes.keys.mergeSort fun left right => left ≤ right

/-- The changing parts of all values. -/
structure Heap where
  /-- Identities below this one have been handed out. -/
  next : Nat := 0
  payloads : Table Identity Payload := ∅
  attributes : Table Identity Attributes := ∅
  functions : Table Identity FunctionDef := ∅

namespace Heap

/-! ## Reading -/

/-- What the object `id` holds. -/
def payload (heap : Heap) (id : Identity) : Payload := (heap.payloads.get? id).getD .plain

/-- The attributes attached to `id`. -/
def attributesOf (heap : Heap) (id : Identity) : Attributes :=
  (heap.attributes.get? id).getD ∅

/-- The items of a list object. -/
def list? (heap : Heap) : Value → Option (List Value)
  | .object id _ => match heap.payload id with
      | .list items => some items
      | _ => none
  | _ => none

/-- The mapping of a dictionary object. -/
def mapping? (heap : Heap) : Value → Option Mapping
  | .object id _ => match heap.payload id with
      | .mapping mapping => some mapping
      | _ => none
  | _ => none

/-- The number of items of a container object. -/
def length? (heap : Heap) : Value → Option Nat
  | .object id _ => match heap.payload id with
      | .plain => none
      | .mapping mapping => some mapping.size
      | .list items => some items.length
  | _ => none

/-- The items of a tuple or list. -/
def sequence? (heap : Heap) : Value → Option (List Value)
  | .tuple items => some items
  | value => heap.list? value

/-- Whether a value counts as true in a condition. -/
def isTruthy (heap : Heap) : Value → Bool
  | .none => false
  | .bool b => b
  | .int n => n != 0
  | .float x => x != 0.0
  | .str text => text != ""
  | .tuple items => !items.isEmpty
  | .object id type => match heap.length? (.object id type) with
      | some length => 0 < length
      | none => true
  | _ => true

/-! ## Writing -/

def setPayload (heap : Heap) (id : Identity) (payload : Payload) : Heap :=
  { heap with payloads := heap.payloads.set id payload }

def setAttributes (heap : Heap) (id : Identity) (attributes : Attributes) : Heap :=
  { heap with attributes := heap.attributes.set id attributes }

/-- Create or overwrite the attribute `name` of `id`. -/
def setAttribute (heap : Heap) (id : Identity) (name : Name) (value : Value) : Heap :=
  heap.setAttributes id ((heap.attributesOf id).set name value)

/-- Remove the attribute `name` of `id`. -/
def eraseAttribute (heap : Heap) (id : Identity) (name : Name) : Heap :=
  heap.setAttributes id ((heap.attributesOf id).erase name)

/-! ## New values -/

/-- An identity that was never used before. -/
def fresh (heap : Heap) : Identity × Heap :=
  (⟨heap.next⟩, { heap with next := heap.next + 1 })

/-- A new object of the given type. -/
def newObject (heap : Heap) (type : TypeId) (payload : Payload) : Value × Heap :=
  let (id, heap) := heap.fresh
  (.object id type, heap.setPayload id payload)

def newInstance (heap : Heap) (type : TypeId) : Value × Heap := heap.newObject type .plain

def newList (heap : Heap) (items : List Value) : Value × Heap :=
  heap.newObject .list (.list items)

def newDict (heap : Heap) (mapping : Mapping) : Value × Heap :=
  heap.newObject .dict (.mapping mapping)

def newFunction (heap : Heap) (definition : FunctionDef) : Value × Heap :=
  let (id, heap) := heap.fresh
  (.function id, { heap with functions := heap.functions.set id definition })

def newError (heap : Heap) (error : Error) : Value × Heap :=
  let (id, heap) := heap.fresh
  (error.toValue id, heap)

end Heap

end ScriptCore
