import ScriptCore.Machine

/-!
# Attributes

An attribute is looked for on the value itself, then, for a type, on the type
and its parents, and last on the type of the value, where a function found is
bound to the value.  Lookup never fails and never changes anything.

Objects and functions take attributes of any name.  Setting an attribute on a
type defines a capability, except that its name and parent are fixed and its
documentation takes only strings.
-/

namespace ScriptCore

namespace World

/-! ## Lookup -/

/-- Attributes of the value itself. -/
def ownAttribute (world : World) (value : Value) (name : Name) : Option Value :=
  match value with
  | .object id _ => (world.heap.attributesOf id).get? name
  | .function id =>
      match (world.heap.attributesOf id).get? name with
      | some found => some found
      | none => do
          let definition ← world.heap.functions.get? id
          match name with
          | "__name__" => some (.str definition.name)
          | "__doc__" => some (.ofText definition.doc)
          | _ => none
  | .native native =>
      match name with
      | "__name__" => some (.str native.name)
      | "__doc__" => some (.ofText native.doc)
      | _ => none
  | _ => none

/-- Attributes of a type used as a value, never bound. -/
def typeAttribute (world : World) (type : TypeId) (name : Name) : Option Value :=
  match name with
  | "__name__" => some (.str (world.types.typeName type))
  | "__base__" => some (.ofOption ((world.types.parentOf type).map .type))
  | "__doc__" => some (.ofText (world.types.docOf type))
  | _ => world.types.resolve type name

/-- Bind a function or native function to a receiver; other values are left as they are. -/
def bindTo (receiver found : Value) : Value :=
  match found with
  | .function _ | .native _ => .boundMethod receiver found
  | _ => found

/-- Attributes that a value has because of its type. -/
def inheritedAttribute (world : World) (value : Value) (name : Name) : Option Value :=
  if name = "__class__" then some (.type value.typeOf)
  else (world.types.resolve value.typeOf name).map (bindTo value)

/-- The attribute `name` of a value. -/
def lookupAttribute (world : World) (value : Value) (name : Name) : Option Value :=
  match world.ownAttribute value name with
  | some found => some found
  | none =>
      match value.asType.bind (world.typeAttribute · name) with
      | some found => some found
      | none => world.inheritedAttribute value name

def noSuchAttribute (world : World) (value : Value) (name : Name) : Error :=
  .ofCause (.noSuchAttribute (world.typeNameOf value) name)

/-- The attribute `name` of a value, which must have it. -/
def getAttribute (world : World) (value : Value) (name : Name) : Except Error Value :=
  match world.lookupAttribute value name with
  | some found => .ok found
  | none => .error (world.noSuchAttribute value name)

def getAttributeOr (world : World) (value : Value) (name : Name) (fallback : Value) : Value :=
  (world.lookupAttribute value name).getD fallback

def hasAttribute (world : World) (value : Value) (name : Name) : Bool :=
  (world.lookupAttribute value name).isSome

/-! ## Changes -/

/-- Set an attribute of a type. -/
def setTypeAttribute (world : World) (type : TypeId) (name : Name) (value : Value) :
    Except Error World :=
  let refused := .error (.ofCause (.cannotSetAttribute (world.types.typeName .type)))
  match name with
  | "__doc__" => match value with
      | .str doc => .ok { world with types := world.types.setDoc type doc }
      | _ => refused
  | "__name__" => refused
  | "__base__" => refused
  | _ => .ok { world with types := world.types.setCapability type name value }

/-- Create or overwrite the attribute `name` of `target`. -/
def setAttribute (world : World) (target : Value) (name : Name) (value : Value) :
    Except Error World :=
  match target with
  | .object id _ | .function id =>
      .ok { world with heap := world.heap.setAttribute id name value }
  | .type type => world.setTypeAttribute type name value
  | _ => .error (.ofCause (.cannotSetAttribute (world.typeNameOf target)))

/-- Remove an attribute that is set on `target` itself. -/
def deleteAttribute (world : World) (target : Value) (name : Name) : Except Error World :=
  match target with
  | .object id _ | .function id =>
      if (world.heap.attributesOf id).contains name then
        .ok { world with heap := world.heap.eraseAttribute id name }
      else .error (world.noSuchAttribute target name)
  | .type type =>
      if (world.types.ownCapability type name).isSome then
        .ok { world with types := world.types.eraseCapability type name }
      else .error (world.noSuchAttribute target name)
  | _ => .error (.ofCause (.cannotDeleteAttribute (world.typeNameOf target) name))

/-- The attributes attached to an object or function. -/
def attachedAttributes (world : World) (value : Value) : Except Error Attributes :=
  match value with
  | .object id _ | .function id => .ok (world.heap.attributesOf id)
  | _ => .error (world.mismatch "object" value)

end World

end ScriptCore
