import ScriptCore.CallStack
import ScriptCore.Scope.Frame
import ScriptCore.Expr
import ScriptCore.Text.Rendering

/-!
# The machine

The world is everything that an operation may change without calling anything:
the heap, the types, the global names, the built-in names and the function
bodies.  A machine is a world together with the functions that are running and
the errors that are being handled.
-/

namespace ScriptCore

/-! ## Host functions -/

/-- The numeric types with arithmetic of their own. -/
inductive NumberKind where
  | integer
  | floating
deriving DecidableEq, Repr

inductive Arithmetic where
  | add
  | subtract
  | multiply
  | equal
  | negate
deriving DecidableEq, Repr

inductive DictMethod where
  | getItem
  | setItem
  | contains
  | length
  | get
deriving DecidableEq, Repr

inductive ListMethod where
  | append
  | getItem
  | length
deriving DecidableEq, Repr

inductive TupleMethod where
  | getItem
  | length
deriving DecidableEq, Repr

/-- Functions that look at values and change attributes. -/
inductive Introspection where
  | isInstance
  | getAttribute
  | setAttribute
  | hasAttribute
  | deleteAttribute
  | help
deriving DecidableEq, Repr

/-- A function implemented by the host. -/
inductive Builtin where
  | number (kind : NumberKind) (operation : Arithmetic)
  | dict (method : DictMethod)
  | list (method : ListMethod)
  | tuple (method : TupleMethod)
  | introspection (function : Introspection)
  /-- The length of any value that has one. -/
  | length
  /-- The sum of the items of a tuple or list. -/
  | sum
  /-- The tuple of the arguments. -/
  | collect
deriving DecidableEq, Repr

/-- What a function value runs. -/
inductive Body where
  | user (body : Expr)
  | native (builtin : Builtin)

/-! ## Worlds -/

/-- Everything that operations change. -/
structure World where
  heap : Heap
  types : Registry
  globals : GlobalScope
  builtins : Table Name Value
  bodies : List Body

namespace World

/-- Types are written under their registered names. -/
def names (world : World) : TypeNames := world.types.nameOf

def repr (world : World) (value : Value) : String := value.repr world.names world.heap

def display (world : World) (value : Value) : String := value.display world.names world.heap

/-- The registered name of the type of a value. -/
def typeNameOf (world : World) (value : Value) : Name := world.types.typeName value.typeOf

/-- An error about a value of the wrong type. -/
def mismatch (world : World) (expected : Name) (value : Value) : Error :=
  .ofCause (.typeMismatch expected (world.typeNameOf value))

/-- Replace the heap by what an allocation leaves. -/
def allocate (world : World) (made : Value × Heap) : Value × World :=
  (made.1, { world with heap := made.2 })

/-- Add a body to the table of bodies. -/
def addBody (world : World) (body : Body) : BodyId × World :=
  (⟨world.bodies.length⟩, { world with bodies := world.bodies ++ [body] })

/-- The body with this identifier. -/
def body? (world : World) (id : BodyId) : Option Body := world.bodies[id.index]?

/-- Documentation of a function, method or type, as it was given. -/
def help (world : World) : Value → Option String
  | .function id => (world.heap.functions.get? id).bind (·.doc)
  | .native native => native.doc
  | .boundMethod _ method => world.help method
  | .type type => world.types.docOf type
  | _ => none

/-- Resolve a name in a frame, then among the built-in names. -/
def loadName (world : World) (frame : Frame) (name : Name) : Except Error Value :=
  frame.resolve world.globals world.builtins name

/-! ## Definitions -/

/-- Define a user function; a refused parameter list defines nothing. -/
def defineFunction (world : World) (name : Name) (parameters : List Parameter)
    (doc : Option String) (body : Expr) : Except Error (Value × World) :=
  match Signature.ofParameters parameters with
  | .error error => .error (.ofCause (.invalidSignature name error.describe))
  | .ok signature =>
      let (id, world) := world.addBody (.user body)
      .ok (world.allocate (world.heap.newFunction { name, signature, doc, body := id }))

/-- Define a function implemented by the host. -/
def defineNative (world : World) (name : Name) (arity : Option Nat) (doc : Option String)
    (builtin : Builtin) : Value × World :=
  let (id, world) := world.addBody (.native builtin)
  (.native { name, arity, doc, body := id }, world)

/-- Add a member to a class: a string called `__doc__` documents it. -/
def addMember (world : World) (type : TypeId) (name : Name) (value : Value) : World :=
  match name, value with
  | "__doc__", .str doc => { world with types := world.types.setDoc type doc }
  | _, _ => { world with types := world.types.setCapability type name value }

/-- Register a class and add its members in order; without parent it derives from `object`. -/
def defineClass (world : World) (name : Name) (parent : Option TypeId)
    (members : List (Name × Value)) : TypeId × World :=
  let (type, types) := world.types.register name (parent.getD .object)
  (type, members.foldl (fun current member => current.addMember type member.1 member.2)
    { world with types })

/-! ## Errors raised by programs -/

/-- The error of a type with a payload; only exception types can be raised. -/
def raise (world : World) (type : TypeId) (payload : Value) : Error :=
  if world.types.isSubtype type .exception then .raised world.names world.heap type payload
  else .ofCause (.typeMismatch "Exception" (world.types.typeName type))

/-- The error meant by raising a value: an error again, or a type without payload. -/
def raiseValue (world : World) (value : Value) : Error :=
  match value with
  | .type type => world.raise type .none
  | other => match other.asError with
      | some error => error
      | none => world.mismatch "Exception" other

end World

/-! ## Machines -/

/-- A world in the middle of a run. -/
structure Machine where
  world : World
  calls : CallStack
  /-- The errors being handled, innermost first. -/
  handling : List Error := []

namespace Machine

/-- The error of the innermost running handler. -/
def current? (machine : Machine) : Option Error := machine.handling.head?

/-- The error of a bare raise. -/
def reraise (machine : Machine) : Error :=
  machine.current?.getD (.ofCause .noActiveException)

/-- Diagnostic text of a machine. -/
def diagnostic (machine : Machine) : String :=
  let world := machine.world
  s!"Runtime \x7b types: {world.types.size}, globals: {world.globals.diagnostic}, " ++
    s!"builtins: {world.builtins.size}, bodies: {world.bodies.length}, " ++
    s!"call_depth: {machine.calls.depth}, .. \x7d"

end Machine

end ScriptCore
