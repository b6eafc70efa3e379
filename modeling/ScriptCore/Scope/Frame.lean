import ScriptCore.Arguments
import ScriptCore.Table

/-!
# Frames

A frame holds the local names of one running function.  Names that it has
declared global it writes to the global scope instead; all other names it
reads from its locals first and from the global scope second.
-/

namespace ScriptCore

/-- The names at the level of a module. -/
abbrev GlobalScope := Table Name Value

/-- Diagnostic text of a global scope. -/
def GlobalScope.diagnostic (scope : GlobalScope) : String :=
  s!"GlobalScope \x7b len: {scope.size} \x7d"

/-- The names of one running function. -/
structure Frame where
  function : Name
  locals : Table Name Value := ∅
  /-- The names that are written globally. -/
  declared : List Name := []

namespace Frame

/-- The frame of a call with these arguments. -/
def ofArguments (function : Name) (bound : Bindings) : Frame :=
  { function, locals := Table.setAll ∅ bound.slots }

/-- Write `name` to the global scope from now on. -/
def declareGlobal (frame : Frame) (name : Name) : Frame :=
  { frame with declared := name :: frame.declared }

def isGlobal (frame : Frame) (name : Name) : Bool := frame.declared.contains name

/-- The local called `name`. -/
def local? (frame : Frame) (name : Name) : Option Value := frame.locals.get? name

def localCount (frame : Frame) : Nat := frame.locals.size

/-- The value of `name`: local unless declared global, else global. -/
def load (frame : Frame) (scope : GlobalScope) (name : Name) : Option Value :=
  if frame.isGlobal name then scope.get? name
  else match frame.locals.get? name with
    | some value => some value
    | none => scope.get? name

/-- The value of `name`: in the frame, else among built-in names. -/
def resolve (frame : Frame) (scope : GlobalScope) (builtins : Table Name Value) (name : Name) :
    Except Error Value :=
  match frame.load scope name with
  | some value => .ok value
  | none => match builtins.get? name with
      | some value => .ok value
      | none => .error (.ofCause (.undefinedName name))

/-- Bind `name`, globally if declared so, else locally. -/
def store (frame : Frame) (scope : GlobalScope) (name : Name) (value : Value) :
    Frame × GlobalScope :=
  if frame.isGlobal name then (frame, scope.set name value)
  else ({ frame with locals := frame.locals.set name value }, scope)

/-- Unbind `name` where `store` would bind it; gives the value it had. -/
def delete (frame : Frame) (scope : GlobalScope) (name : Name) :
    Option Value × Frame × GlobalScope :=
  if frame.isGlobal name then (scope.get? name, frame, scope.erase name)
  else (frame.locals.get? name, { frame with locals := frame.locals.erase name }, scope)

end Frame

end ScriptCore
