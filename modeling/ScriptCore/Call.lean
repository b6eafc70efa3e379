import ScriptCore.Binding
import ScriptCore.Builtin
import ScriptCore.Eval

/-!
# Calls

Functions, native functions, bound methods and types can be called.  A call is
given a number of nested calls that it may make; with enough of them the
outcome no longer depends on that number.  Only user functions stand on the
call stack, so the recursion limit counts only them.
-/

namespace ScriptCore

namespace Machine

/-- A change of the world of a machine that may raise an error instead. -/
def update {α : Type} (step : World → Except Error (α × World)) : Computation Machine α :=
  .update fun machine =>
    (step machine.world).map fun (value, world) => (value, { machine with world })

/-! ## User functions -/

/-- Put a function on the call stack, unless it is full. -/
def enter (name : Name) : Computation Machine Unit where
  run machine :=
    match machine.calls.push name with
    | .ok calls => (.value (), { machine with calls })
    | .error error => (.raised error, machine)
  trail machine :=
    match machine.calls.push name with
    | .ok calls => [⟨.enter name, { machine with calls }⟩]
    | .error error => [⟨.refuse name, machine⟩, ⟨.raise error, machine⟩]

/-- Take the innermost function, which has this name, off the call stack. -/
def leave (name : Name) : Computation Machine Unit where
  run machine :=
    match machine.calls.pop with
    | .ok calls => (.value (), { machine with calls })
    | .error defect => (.broken defect, machine)
  trail machine :=
    match machine.calls.pop with
    | .ok calls => [⟨.leave name, { machine with calls }⟩]
    | .error _ => []

section EnterAndLeave

variable {machine : Machine} {calls : CallStack} {name : Name}

theorem enter_of_ok (pushed : machine.calls.push name = .ok calls) :
    (enter name).run machine = (.value (), { machine with calls }) ∧
      (enter name).trail machine = [⟨.enter name, { machine with calls }⟩] := by
  simp only [enter, pushed, and_self]

theorem enter_of_error {error : Error} (refused : machine.calls.push name = .error error) :
    (enter name).run machine = (.raised error, machine) ∧
      (enter name).trail machine = [⟨.refuse name, machine⟩, ⟨.raise error, machine⟩] := by
  simp only [enter, refused, and_self]

theorem leave_of_ok (name : Name) (popped : machine.calls.pop = .ok calls) :
    (leave name).run machine = (.value (), { machine with calls }) ∧
      (leave name).trail machine = [⟨.leave name, { machine with calls }⟩] := by
  simp only [leave, popped, and_self]

end EnterAndLeave

/-- Run a body with a function on the call stack; its error remembers that it was left. -/
def within (name : Name) (body : Computation Machine Value) : Computation Machine Value := do
  enter name
  let result ← body.result
  leave name
  Computation.conclude (result.mapError (·.leave name))

/-- Evaluate a body in a frame of its own. -/
def inFrame (frame : Frame) (body : Computation Activation Value) : Computation Machine Value :=
  .onPart (fun machine => ⟨frame, machine⟩) (fun _ activation => activation.machine) body

/-- Bind the arguments of a call; defaults and collectors may be new objects of the world. -/
def bindArguments (function : FunctionDef) (arguments : Arguments) (world : World) :
    Except Error (Bindings × World) :=
  (bind function.name function.signature arguments world.heap).map fun (bound, heap) =>
    (bound, { world with heap })

/-- Bind the arguments and evaluate the body in a new frame. -/
def runBody (call : Caller) (function : FunctionDef) (arguments : Arguments) :
    Computation Machine Value := do
  let bound ← update (bindArguments function arguments)
  let body ← Computation.inspect fun machine =>
    match machine.world.body? function.body with
    | some (.user body) => .ok body
    | _ => .error (.ofCause (.notCallable "function"))
  inFrame (.ofArguments function.name bound) (body.eval call)

/-- Call a user function: its name is on the call stack while it runs. -/
def callFunction (call : Caller) (function : FunctionDef) (arguments : Arguments) :
    Computation Machine Value :=
  within function.name (runBody call function arguments)

/-! ## Native functions -/

/-- The length of a value: of strings and tuples directly, of others by their `__len__`. -/
def length (call : Caller) (value : Value) : Computation Machine Value :=
  match value with
  | .str text => .pure (.ofNat text.length)
  | .tuple items => .pure (.ofNat items.length)
  | _ => do
      let result ← call.method value "__len__" {}
      match result with
      | .int n => return .int n
      | other => Computation.inspect fun machine => .error (machine.world.mismatch "int" other)

/-- Add items to a total, from left to right, each time by the `__add__` of the total. -/
def total (call : Caller) (start : Value) : List Value → Computation Machine Value
  | [] => .pure start
  | item :: rest => do
      let next ← call.fast "__add__" [start, item]
      total call next rest

/-- The sum of the items of a tuple or list. -/
def sum (call : Caller) (sequence start : Value) : Computation Machine Value := do
  let items ← Computation.inspect fun machine =>
    match machine.world.heap.sequence? sequence with
    | some items => .ok items
    | none => .error (machine.world.mismatch "list" sequence)
  total call start items

/-- Run a native function on positional arguments. -/
def runNative (call : Caller) (builtin : Builtin) (arguments : List Value) :
    Computation Machine Value :=
  match builtin, arguments with
  | .length, [value] => length call value
  | .length, arguments => .raise (.wrongArity "len" 1 arguments)
  | .sum, [sequence] => sum call sequence (.int 0)
  | .sum, [sequence, start] => sum call sequence start
  | .sum, arguments => .raise (.wrongArity "sum" 1 arguments)
  | builtin, arguments => update fun world => builtin.runSimple world arguments

/-- The body of a native function whose arguments are acceptable. -/
def nativeBody (native : Native) (arguments : Arguments) (world : World) :
    Except Error Builtin :=
  let got := arguments.positional.length
  if arguments.hasKeywords then .error (.ofCause (.nativeKeywords native.name))
  else if native.arity.any (· ≠ got) then
    .error (.ofCause (.nativeArity native.name (native.arity.getD 0) got))
  else match world.body? native.body with
    | some (.native builtin) => .ok builtin
    | _ => .error (.ofCause (.notCallable "native_function"))

/-- Call a native function: no keywords, and as many arguments as it says. -/
def callNative (call : Caller) (native : Native) (arguments : Arguments) :
    Computation Machine Value := do
  let builtin ← Computation.inspect fun machine => nativeBody native arguments machine.world
  runNative call builtin arguments.positional

/-! ## Types -/

/-- The payload of a new error: nothing, one value, or the tuple of several. -/
def errorPayload : List Value → Value
  | [] => .none
  | [value] => value
  | values => .tuple values

/-- Make an error value of an exception type. -/
def constructError (type : TypeId) (arguments : Arguments) : Computation Machine Value :=
  update fun world =>
    match arguments.keywords with
    | (keyword, _) :: _ =>
        .error (.ofCause (.unexpectedKeyword (world.types.typeName type) keyword))
    | [] =>
        let error := Error.raised world.names world.heap type (errorPayload arguments.positional)
        .ok (world.allocate (world.heap.newError error))

/-- Convert to a built-in type. -/
def constructBuiltin (type : TypeId) (arguments : Arguments) : Computation Machine Value :=
  update fun world =>
    if arguments.hasKeywords then
      .error (.ofCause (.nativeKeywords (world.types.typeName type)))
    else world.convert type arguments.positional

/-- Make an instance of a user type and initialise it; what `__init__` gives is ignored. -/
def constructInstance (call : Caller) (type : TypeId) (arguments : Arguments) :
    Computation Machine Value := do
  let value ← update fun world => .ok (world.allocate (world.heap.newInstance type))
  let init ← Computation.inspect fun machine =>
    .ok (machine.world.types.resolve type "__init__")
  match init with
  | some init =>
      let _ ← call (.boundMethod value init) arguments
      return value
  | none => return value

/-- Call a type. -/
def construct (call : Caller) (type : TypeId) (arguments : Arguments) :
    Computation Machine Value := do
  if (← Computation.get).world.types.isSubtype type .exception then
    constructError type arguments
  else if type.isBuiltin then constructBuiltin type arguments
  else constructInstance call type arguments

/-! ## Calling values -/

/-- What a bound method calls in the end, with all receivers in front of the arguments. -/
def unbind : Value → Arguments → Value × Arguments
  | .boundMethod receiver method, arguments => unbind method (arguments.withReceiver receiver)
  | callee, arguments => (callee, arguments)

/-- Call a value that is not a bound method. -/
def callUnbound (call : Caller) (callee : Value) (arguments : Arguments) :
    Computation Machine Value := do
  match callee with
  | .function id =>
      let function ← Computation.inspect fun machine =>
        match machine.world.heap.functions.get? id with
        | some function => .ok function
        | none => .error (.ofCause (.notCallable "function"))
      callFunction call function arguments
  | .native native => callNative call native arguments
  | .type type => construct call type arguments
  | other =>
      Computation.inspect fun machine =>
        .error (.ofCause (.notCallable (machine.world.typeNameOf other)))

/-- Call a value; calls made while it runs may be nested `depth` deep. -/
def call : Nat → Caller
  | 0, _, _ => .exhausted
  | depth + 1, callee, arguments =>
      let (callee, arguments) := unbind callee arguments
      callUnbound (call depth) callee arguments

end Machine

end ScriptCore
