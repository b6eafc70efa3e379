import ScriptCore.Value
import ScriptCore.Table

/-!
# The type registry

Every registered type has a name, at most one parent and capabilities: methods
and class attributes defined on the type itself.  Questions about a type are
answered by walking from it to its parent, to the parent of that, and so on.

A parent need not be registered when it is named.  A walk therefore stops
after as many steps as there are registered types, plus one for an end that is
not registered; a longer one has met a type twice.
-/

namespace ScriptCore

/-- A registered type. -/
structure TypeInfo where
  name : Name
  parent : Option TypeId
  capabilities : Table Name Value := ∅
  doc : Option String := none

/-- All registered types; the place of a type is its identifier. -/
structure Registry where
  types : List TypeInfo

namespace Registry

/-- The registry of the built-in types. -/
def builtin : Registry :=
  ⟨TypeId.builtins.map fun (_, name, parent) => { name, parent }⟩

/-! ## Single types -/

def get? (registry : Registry) (type : TypeId) : Option TypeInfo := registry.types[type.index]?

def size (registry : Registry) : Nat := registry.types.length

/-- Whether the type is registered. -/
def contains (registry : Registry) (type : TypeId) : Bool := type.index < registry.size

def nameOf (registry : Registry) (type : TypeId) : Option Name :=
  (registry.get? type).map (·.name)

def parentOf (registry : Registry) (type : TypeId) : Option TypeId :=
  (registry.get? type).bind (·.parent)

def docOf (registry : Registry) (type : TypeId) : Option String :=
  (registry.get? type).bind (·.doc)

/-- The capability `name` defined on the type itself. -/
def ownCapability (registry : Registry) (type : TypeId) (name : Name) : Option Value :=
  (registry.get? type).bind (·.capabilities.get? name)

/-- The type registered under `name`. -/
def lookup (registry : Registry) (name : Name) : Option TypeId :=
  (registry.types.findIdx? (·.name = name)).map TypeId.mk

/-- The name shown for a type; one that is not registered counts as an object. -/
def typeName (registry : Registry) (type : TypeId) : Name :=
  (registry.nameOf type).getD "object"

/-! ## Changes -/

/-- Register a type; a known name keeps its type and its parent. -/
def register (registry : Registry) (name : Name) (parent : TypeId) : TypeId × Registry :=
  match registry.lookup name with
  | some known => (known, registry)
  | none => (⟨registry.size⟩, ⟨registry.types ++ [{ name, parent := some parent }]⟩)

/-- Change a registered type. -/
def modify (registry : Registry) (type : TypeId) (change : TypeInfo → TypeInfo) : Registry :=
  ⟨registry.types.modify type.index change⟩

/-- Define `name` on a type; a type that is not registered stays unknown. -/
def setCapability (registry : Registry) (type : TypeId) (name : Name) (value : Value) :
    Registry :=
  registry.modify type fun info =>
    { info with capabilities := info.capabilities.set name value }

/-- Take the definition of `name` on a type away. -/
def eraseCapability (registry : Registry) (type : TypeId) (name : Name) : Registry :=
  registry.modify type fun info => { info with capabilities := info.capabilities.erase name }

/-- Document a type. -/
def setDoc (registry : Registry) (type : TypeId) (doc : String) : Registry :=
  registry.modify type fun info => { info with doc := some doc }

/-! ## Walks -/

/-- The first `steps` types on the walk from `type`. -/
def walk (registry : Registry) : Nat → TypeId → List TypeId
  | 0, _ => []
  | steps + 1, type =>
      type :: match registry.parentOf type with
        | some parent => registry.walk steps parent
        | none => []

/-- A registered type, its parent, and so on to the end of the walk. -/
def ancestors (registry : Registry) (type : TypeId) : List TypeId :=
  if registry.contains type then registry.walk (registry.size + 1) type else []

/-- Whether `ancestor` stands on the walk from `type`. -/
def isSubtype (registry : Registry) (type ancestor : TypeId) : Bool :=
  (registry.ancestors type).any (· = ancestor)

/-- Whether the type of `value` is `type` or derives from it. -/
def isInstance (registry : Registry) (value : Value) (type : TypeId) : Bool :=
  registry.isSubtype value.typeOf type

/-- The definition of `name` on the nearest type of the walk that has one. -/
def resolve (registry : Registry) (type : TypeId) (name : Name) : Option Value :=
  (registry.ancestors type).findSome? (registry.ownCapability · name)

end Registry

end ScriptCore
