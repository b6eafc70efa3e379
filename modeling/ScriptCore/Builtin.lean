import ScriptCore.Builtin.Collections
import ScriptCore.Builtin.Convert
import ScriptCore.Builtin.Introspection

/-!
# Built-in functions

The table of all functions that a fresh machine knows, and the functions of
the table that never call back into a program.
-/

namespace ScriptCore

namespace Builtin

/-- A built-in function with its name; one with an owner is a method of that type. -/
structure Entry where
  owner : Option TypeId
  name : Name
  arity : Option Nat
  doc : Option String
  builtin : Builtin

/-- Methods of the numeric types. -/
def numberEntries (kind : NumberKind) : List Entry :=
  [Arithmetic.add, .subtract, .multiply, .equal, .negate].map fun operation =>
    ⟨some kind.type, operation.methodName, some operation.arity, none, .number kind operation⟩

def dictEntries : List Entry :=
  [DictMethod.getItem, .setItem, .contains, .length, .get].map fun method =>
    ⟨some .dict, method.methodName, method.arity, none, .dict method⟩

def listEntries : List Entry :=
  [ListMethod.append, .getItem, .length].map fun method =>
    ⟨some .list, method.methodName, some method.arity, none, .list method⟩

def tupleEntries : List Entry :=
  [TupleMethod.getItem, .length].map fun method =>
    ⟨some .tuple, method.methodName, some method.arity, none, .tuple method⟩

def introspectionEntries : List Entry :=
  [Introspection.isInstance, .getAttribute, .setAttribute, .hasAttribute, .deleteAttribute,
    .help].map fun function =>
      ⟨none, function.functionName, function.arity, some function.doc, .introspection function⟩

/-- All built-in functions, in the order in which they are defined. -/
def entries : List Entry :=
  numberEntries .integer ++ numberEntries .floating ++ dictEntries ++ listEntries ++
    tupleEntries ++ introspectionEntries ++
    [⟨none, "len", some 1, some "len(obj) -> int", .length⟩,
     ⟨none, "sum", none, some "sum(iterable[, start])", .sum⟩]

/-- Run a function that does not call back, on positional arguments. -/
def runSimple (world : World) (arguments : List Value) :
    Builtin → Except Error (Value × World)
  | number kind operation => (operation.run world kind arguments).map (·, world)
  | dict method => method.run world arguments
  | list method => method.run world arguments
  | tuple method => (method.run world arguments).map (·, world)
  | introspection function => function.run world arguments
  | length | sum | collect => .ok (.tuple arguments, world)

end Builtin

/-! ## Fresh machines -/

namespace World

/-- The world with nothing but the built-in types. -/
def bare : World where
  heap := {}
  types := .builtin
  globals := ∅
  builtins := Table.setAll ∅ (TypeId.builtins.map fun (id, name, _) => (name, .type id))
  bodies := []

/-- Define a built-in function where it belongs. -/
def addBuiltin (world : World) (entry : Builtin.Entry) : World :=
  let (native, world) := world.defineNative entry.name entry.arity entry.doc entry.builtin
  match entry.owner with
  | some owner => { world with types := world.types.setCapability owner entry.name native }
  | none => { world with builtins := world.builtins.set entry.name native }

/-- The world of a fresh machine. -/
def fresh : World := Builtin.entries.foldl addBuiltin bare

/-- The names that a fresh world brings along, in the order in which it needs them. -/
def vocabulary : List Name := TypeId.builtins.map (·.2.1) ++ Builtin.entries.map (·.name)

end World

namespace Machine

/-- A machine that has not run yet. -/
def fresh (calls : CallStack) : Machine := { world := .fresh, calls }

end Machine

end ScriptCore
