import ScriptCore.Value

/-!
# Arguments

Arguments of one call, before and after they are bound to parameters.
-/

namespace ScriptCore

/-- The evaluated arguments of a call, keywords in the order of the call. -/
structure Arguments where
  positional : List Value := []
  keywords : List (Name × Value) := []

namespace Arguments

/-- Arguments given by position only. -/
def ofList (values : List Value) : Arguments := { positional := values }

/-- The arguments with the receiver of a method in front. -/
def withReceiver (arguments : Arguments) (receiver : Value) : Arguments :=
  { arguments with positional := receiver :: arguments.positional }

def hasKeywords (arguments : Arguments) : Bool := !arguments.keywords.isEmpty

def size (arguments : Arguments) : Nat :=
  arguments.positional.length + arguments.keywords.length

def isEmpty (arguments : Arguments) : Bool :=
  arguments.positional.isEmpty && arguments.keywords.isEmpty

end Arguments

/-- Parameters with their values, in declaration order. -/
structure Bindings where
  slots : List (Name × Value)

namespace Bindings

/-- The value bound to `name`. -/
def get? (bound : Bindings) (name : Name) : Option Value :=
  (bound.slots.find? (·.1 = name)).map (·.2)

def contains (bound : Bindings) (name : Name) : Bool := bound.slots.any (·.1 = name)

def size (bound : Bindings) : Nat := bound.slots.length

def isEmpty (bound : Bindings) : Bool := bound.slots.isEmpty

end Bindings

end ScriptCore
