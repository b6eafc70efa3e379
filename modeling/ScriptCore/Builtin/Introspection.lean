import ScriptCore.Attributes
import ScriptCore.Builtin.Arithmetic

/-!
# Introspection

Functions that ask for the type of a value and work on its attributes, which
they name by strings.
-/

namespace ScriptCore

namespace World

/-- An attribute name given as a value. -/
def attributeName (world : World) (value : Value) : Except Error Name :=
  match value with
  | .str name => .ok name
  | _ => .error (world.mismatch "str" value)

/-- Whether `value` is an instance of a type given as a value. -/
def isInstanceOf (world : World) (value candidate : Value) : Except Error Bool :=
  match candidate with
  | .type type => .ok (world.types.isInstance value type)
  | _ => .error (world.mismatch "type" candidate)

/-- Whether `value` is an instance of one of the types, asked in order until one is found. -/
def isInstanceOfAny (world : World) (value : Value) : List Value → Except Error Bool
  | [] => .ok false
  | candidate :: rest =>
      match world.isInstanceOf value candidate with
      | .error error => .error error
      | .ok true => .ok true
      | .ok false => world.isInstanceOfAny value rest

end World

namespace Introspection

def functionName : Introspection → Name
  | isInstance => "isinstance"
  | getAttribute => "getattr"
  | setAttribute => "setattr"
  | hasAttribute => "hasattr"
  | deleteAttribute => "delattr"
  | help => "help"

def arity : Introspection → Option Nat
  | isInstance => some 2
  | getAttribute => none
  | setAttribute => some 3
  | hasAttribute => some 2
  | deleteAttribute => some 2
  | help => some 1

/-- The least number of arguments. -/
def required (function : Introspection) : Nat := function.arity.getD 2

def doc : Introspection → String
  | isInstance => "isinstance(obj, cls) -> bool\n\ncls may be a type or a tuple of types."
  | getAttribute => "getattr(obj, name[, default])"
  | setAttribute => "setattr(obj, name, value)"
  | hasAttribute => "hasattr(obj, name) -> bool"
  | deleteAttribute => "delattr(obj, name)"
  | help => "help(obj) -> str | None"

def run (world : World) (function : Introspection) (arguments : List Value) :
    Except Error (Value × World) :=
  match function, arguments with
  | isInstance, [value, .tuple candidates] => do
      return (.bool (← world.isInstanceOfAny value candidates), world)
  | isInstance, [value, candidate] => do
      return (.bool (← world.isInstanceOf value candidate), world)
  | getAttribute, [value, name] => do
      let name ← world.attributeName name
      return (← world.getAttribute value name, world)
  | getAttribute, [value, name, fallback] => do
      let name ← world.attributeName name
      return (world.getAttributeOr value name fallback, world)
  | setAttribute, [target, name, value] => do
      let name ← world.attributeName name
      return (.none, ← world.setAttribute target name value)
  | hasAttribute, [value, name] => do
      let name ← world.attributeName name
      return (.bool (world.hasAttribute value name), world)
  | deleteAttribute, [target, name] => do
      let name ← world.attributeName name
      return (.none, ← world.deleteAttribute target name)
  | help, [value] => .ok (.ofText (world.help value), world)
  | _, _ => .error (.wrongArity function.functionName function.required arguments)

end Introspection

end ScriptCore
