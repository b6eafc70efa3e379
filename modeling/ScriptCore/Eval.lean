import ScriptCore.Attributes
import ScriptCore.Computation
import ScriptCore.Operation
import ScriptCore.Region

/-!
# Evaluation

Expressions are evaluated in a frame of a machine.  What a call does is a
parameter, so that evaluation follows the shape of the expression and nothing
else.
-/

namespace ScriptCore

/-- What a call does with a machine. -/
abbrev Caller := Value → Arguments → Computation Machine Value

/-- A frame in a running machine. -/
structure Activation where
  frame : Frame
  machine : Machine

/-! ## Method calls -/

namespace Caller

/-- Call the attribute `name` of a receiver. -/
def method (call : Caller) (receiver : Value) (name : Name) (arguments : Arguments) :
    Computation Machine Value := do
  let found ← Computation.inspect fun machine => machine.world.getAttribute receiver name
  call found arguments

/-- Call what the type of the first argument defines as `name`, with all arguments. -/
def fast (call : Caller) (name : Name) (arguments : List Value) : Computation Machine Value :=
  match arguments with
  | [] => .raise (.ofCause (.nativeArity name 1 0))
  | first :: _ => do
      let found ← Computation.inspect fun machine =>
        match machine.world.types.resolve first.typeOf name with
        | some found => .ok found
        | none => .error (machine.world.noSuchAttribute first name)
      call found (.ofList arguments)

/-- Values split into positional ones and as many keyword values as there are names. -/
def arguments (values : List Value) (keywords : List Name) : Arguments :=
  let count := values.length - keywords.length
  { positional := values.take count, keywords := keywords.zip (values.drop count) }

/-- Make a call in one of its forms. -/
def perform (call : Caller) (form : CallForm) (operands : List Value) :
    Computation Machine Value :=
  match form, operands with
  | .value keywords, callee :: rest => call callee (arguments rest keywords)
  | .method name keywords, receiver :: rest => call.method receiver name (arguments rest keywords)
  | .fast name, operands => call.fast name operands
  | _, [] => .raise (.wrongOperands [])

end Caller

namespace Activation

/-! ## Parts of an activation -/

/-- A computation on the machine of an activation. -/
def onMachine {α : Type} (inner : Computation Machine α) : Computation Activation α :=
  .onPart Activation.machine (fun activation machine => { activation with machine }) inner

/-- Perform an operation; frame and world are replaced, calls and handled errors are not. -/
def perform (op : Operation) (operands : List Value) : Computation Activation Value :=
  .update fun activation =>
    (op.perform activation.machine activation.frame operands).map fun (value, frame, world) =>
      (value, { frame, machine := { activation.machine with world } })

/-- Define a function whose shared defaults have these values. -/
def define (name : Name) (declarations : List Declaration) (doc : Option String) (body : Expr)
    (defaults : List Value) : Computation Activation Value :=
  onMachine <| .update fun machine =>
    (machine.world.defineFunction name (Declaration.parameters declarations defaults) doc
      body).map fun (value, world) => (value, { machine with world })

def isTrue (value : Value) : Computation Activation Bool :=
  .inspect fun activation => .ok (activation.machine.world.heap.isTruthy value)

/-- The clauses meant by the forms, resolved now. -/
def clauses (forms : List ClauseForm) : Computation Activation (List Clause) :=
  .inspect fun activation => ClauseForm.resolveAll activation.machine.world.types forms

/-! ## Try regions -/

/-- Hand the error to a handler: it is the one being handled from now on. -/
def enterHandler (index : Nat) (error : Error) : Computation Activation Unit :=
  .mark (.handle index error) fun activation =>
    { activation with
      machine := { activation.machine with handling := error :: activation.machine.handling } }

/-- The innermost handler has ended. -/
def exitHandler : Computation Activation Unit :=
  .mark .finish fun activation =>
    { activation with
      machine := { activation.machine with handling := activation.machine.handling.tail } }

/-- Run a handler with the error as the one being handled, and end the region with it. -/
def handle (region : Region) (index : Nat) (error : Error)
    (handler : Computation Activation Value) : Computation Activation Value := do
  enterHandler index error
  let result ← handler.result
  exitHandler
  let _ ← Computation.require (region.handlerExit !result.isOk)
  Computation.conclude result

/-- Ask the clauses of a region about the error of its body. -/
def dispatch (clauses : List Clause) (error : Error)
    (handler : Nat → Error → Computation Activation Value) : Computation Activation Value := do
  Computation.mark (.select error) id
  let types := (← Computation.get).machine.world.types
  match ← Computation.require (Region.armed.raise types error clauses) with
  | (.handle index, region) => handle region index error (handler index error)
  | (.propagate, _) => Computation.conclude (.error error)

/--
Run a body under the protection of clauses.  The first clause that takes the
error of the body has its handler run; an error that none takes goes on.
-/
def guarded (clauses : List Clause) (body : Computation Activation Value)
    (handler : Nat → Error → Computation Activation Value) : Computation Activation Value := do
  match ← body.result with
  | .ok value =>
      let _ ← Computation.require Region.armed.bodyExit
      return value
  | .error error => dispatch clauses error handler

/-- Store an error in the frame under the name a region gives it. -/
def bindError (binding : Option Name) (error : Error) : Computation Activation Unit :=
  match binding with
  | none => .pure ()
  | some name => .update fun ⟨frame, machine⟩ =>
      let world := machine.world
      let (value, world) := world.allocate (world.heap.newError error)
      let (frame, globals) := frame.store world.globals name value
      .ok ((), ⟨frame, { machine with world := { world with globals } }⟩)

end Activation

/-! ## Expressions -/

namespace Expr

mutual

/-- Evaluate an expression. -/
def eval (call : Caller) : Expr → Computation Activation Value
  | .literal written => .pure written.value
  | .sequence items => evalLast call items .none
  | .branch condition yes no => do
      let value ← eval call condition
      if ← Activation.isTrue value then eval call yes else eval call no
  | .loop count body => do
      Computation.repeated count (eval call body)
      return .none
  | .call form operands => do
      let values ← evalAll call operands
      Activation.onMachine (call.perform form values)
  | .apply operation operands => do
      let values ← evalAll call operands
      Activation.perform operation values
  | .define name declarations doc body defaults => do
      let values ← evalAll call defaults
      Activation.define name declarations doc body values
  | .guarded forms binding body handlers => do
      let clauses ← Activation.clauses forms
      Activation.guarded clauses (eval call body) fun index error => do
        Activation.bindError binding error
        evalAt call handlers index

/-- Evaluate expressions in order; the value of the last one, or `last` if there is none. -/
def evalLast (call : Caller) : List Expr → Value → Computation Activation Value
  | [], last => .pure last
  | item :: rest, _ => do
      let value ← eval call item
      evalLast call rest value

/-- Evaluate expressions in order; all values. -/
def evalAll (call : Caller) : List Expr → Computation Activation (List Value)
  | [] => .pure []
  | item :: rest => do
      let value ← eval call item
      let values ← evalAll call rest
      return value :: values

/-- Evaluate one of several expressions. -/
def evalAt (call : Caller) : List Expr → Nat → Computation Activation Value
  | [], _ => .pure .none
  | item :: _, 0 => eval call item
  | _ :: rest, index + 1 => evalAt call rest index

end

end Expr

end ScriptCore
