import ScriptCore.Machine

/-!
# Arithmetic

Integers and floating point numbers carry the same five operations.  The first
operand must be of the type that owns the method.  Two integers give an exact
integer or fail; anything else is computed in floating point.
-/

namespace ScriptCore

/-- A wrong number of arguments for a host function. -/
def Error.wrongArity (name : Name) (expected : Nat) (arguments : List Value) : Error :=
  .ofCause (.nativeArity name expected arguments.length)

namespace World

/-- Require that `value` is an instance of `type`. -/
def expectType (world : World) (value : Value) (type : TypeId) : Except Error Unit :=
  if world.types.isInstance value type then .ok ()
  else .error (world.mismatch (world.types.typeName type) value)

end World

namespace NumberKind

/-- The type whose methods these are. -/
def type : NumberKind → TypeId
  | integer => .int
  | floating => .float

end NumberKind

namespace Arithmetic

/-- The method name of an operation. -/
def methodName : Arithmetic → Name
  | add => "__add__"
  | subtract => "__sub__"
  | multiply => "__mul__"
  | equal => "__eq__"
  | negate => "__neg__"

def arity : Arithmetic → Nat
  | negate => 1
  | _ => 2

/-- Operands of a binary operation. -/
inductive Operands where
  | integers (a b : Int64)
  | floats (a b : Float)

/-- The operands as numbers of one kind. -/
def operands (world : World) (kind : NumberKind) (left right : Value) :
    Except Error Operands :=
  match world.expectType left kind.type with
  | .error error => .error error
  | .ok () =>
      match kind, left.asInt, right.asInt with
      | .integer, some a, some b => .ok (.integers a b)
      | _, _, _ =>
          match left.asFloat, right.asFloat with
          | some a, some b => .ok (.floats a b)
          | none, _ => .error (world.mismatch "float" left)
          | some _, none => .error (world.mismatch "float" right)

/-- An exact integer result, or an error that names the operation. -/
def exact (operation : String) : Option Int64 → Except Error Value
  | some n => .ok (.int n)
  | none => .error (.ofCause (.arithmeticOverflow operation))

/-- A binary operation from its two versions. -/
def compute (operation : String) (integers : Int64 → Int64 → Option Int64)
    (floats : Float → Float → Float) : Operands → Except Error Value
  | .integers a b => exact operation (integers a b)
  | .floats a b => .ok (.float (floats a b))

/-- Perform an operation on its arguments, the receiver first. -/
def run (world : World) (kind : NumberKind) (operation : Arithmetic) (arguments : List Value) :
    Except Error Value :=
  match operation, arguments with
  | add, [left, right] =>
      (operands world kind left right).bind (compute "addition" Word.add? (· + ·))
  | subtract, [left, right] =>
      (operands world kind left right).bind (compute "subtraction" Word.sub? (· - ·))
  | multiply, [left, right] =>
      (operands world kind left right).bind (compute "multiplication" Word.mul? (· * ·))
  | equal, [left, right] =>
      (world.expectType left kind.type).map fun _ => .bool (left.equal right)
  | negate, [value] =>
      match world.expectType value kind.type with
      | .error error => .error error
      | .ok () =>
          match value with
          | .int n => exact "negation" (Word.neg? n)
          | .float x => .ok (.float (-x))
          | other => .error (world.mismatch (world.types.typeName kind.type) other)
  | _, _ => .error (.wrongArity operation.methodName operation.arity arguments)

end Arithmetic

end ScriptCore
