import Mathlib.Logic.Relation
import ScriptCore.Proofs.Errors.Runs

/-!
# Every error is well formed

A host gets hold of errors in few ways: the operations of the runtime give them, it makes
one with a cause, or it raises one of an exception type; and it may make any of them into
a value.  Whatever else it does, it never meets an error that is not well formed.
-/

namespace ScriptCore

/-! ## Honest runs -/

/-- Being careful about an operation makes a difference exactly where it is not admissible. -/
theorem Activation.careful_agree_iff {op : Operation} {operands : List Value}
    {activation : Activation} :
    (careful op operands).Agree (perform op operands) activation ↔
      op.admissible activation.machine.world.types operands = true := by
  cases admissible : op.admissible activation.machine.world.types operands with
  | true =>
      have passed : (check op operands).run activation = (.value (), activation) := by
        simp only [check, Computation.inspect, admissible, if_true, Outcome.ofExcept]
      have quiet : (check op operands).trail activation = [] := by
        simp only [check, Computation.inspect, admissible, if_true]
      refine iff_of_true ⟨Computation.run_bind_of_value passed _, ?_⟩ rfl
      exact (Computation.trail_bind_of_value passed _).trans (by rw [quiet, List.nil_append])
  | false =>
      have refused : (check op operands).run activation =
          (.raised (.wrongOperands operands), activation) := by
        simp only [check, Computation.inspect, admissible, Bool.false_eq_true, if_false,
          Outcome.ofExcept]
      refine iff_of_false (fun agree => ?_) Bool.false_ne_true
      have same := (Computation.run_bind_of_raised refused _).symm.trans agree.1
      unfold Operation.admissible at admissible
      split at admissible
      · cases same
      · cases admissible

/--
Error values are made of exception types only, by the expression and by all bodies that
it comes to: it would make no difference to be careful about it.
-/
def Expr.Honest (depth : Nat) (expr : Expr) (activation : Activation) : Prop :=
  (expr.evalWith Activation.careful (Machine.callWith Activation.careful depth)).Agree
    (expr.eval (Machine.call depth)) activation

/-- A call that is made from outside of all expressions. -/
inductive Invocation where
  | value (callee : Value) (arguments : Arguments)
  | method (receiver : Value) (name : Name) (arguments : Arguments)
  /-- Call what the type of the first operand defines. -/
  | fast (name : Name) (operands : List Value)

namespace Invocation

def run (call : Caller) : Invocation → Computation Machine Value
  | value callee arguments => call callee arguments
  | method receiver name arguments => call.method receiver name arguments
  | fast name operands => call.fast name operands

/-- All values that have a part in the call have the property. -/
def All (holds : Value → Prop) : Invocation → Prop
  | value callee arguments => holds callee ∧ arguments.All holds
  | method receiver _ arguments => holds receiver ∧ arguments.All holds
  | fast _ operands => ∀ operand ∈ operands, holds operand

/-- All bodies that the call comes to make error values of exception types only. -/
def Honest (depth : Nat) (invocation : Invocation) (machine : Machine) : Prop :=
  (invocation.run (Machine.callWith Activation.careful depth)).Agree
    (invocation.run (Machine.call depth)) machine

theorem All.imp {holds implied : Value → Prop} {invocation : Invocation}
    (all : invocation.All holds) (implies : ∀ value, holds value → implied value) :
    invocation.All implied := by
  cases invocation with
  | value callee arguments => exact ⟨implies callee all.1, all.2.imp implies⟩
  | method receiver name arguments => exact ⟨implies receiver all.1, all.2.imp implies⟩
  | fast name operands => exact fun operand member => implies operand (all operand member)

theorem safe {known : Registry} {call : Caller} (calls : call.Safe) {invocation : Invocation}
    (held : invocation.All (Value.Proper known)) :
    Safe known (invocation.run call) Value.Proper := by
  cases invocation with
  | value callee arguments => exact calls held.1 held.2
  | method receiver name arguments => exact safe_method calls name held.1 held.2
  | fast name operands => exact safe_fast calls name held

end Invocation

/-- A computation that agrees with a safe one from a proper state on is as clean. -/
theorem Safe.clean_of_agree {σ α : Type} [Scene σ] {body other : Computation σ α}
    {gives : Registry → α → Prop} {s : σ} (safe : Safe (Scene.types s) body gives)
    (proper : Scene.Proper s) (agree : body.Agree other s) :
    Clean (Scene.types s) (other.trail s) (other.run s) gives := by
  rw [← agree.1, ← agree.2]
  exact safe s proper (.refl _)

section Runs

variable {depth : Nat} {expr : Expr} {activation : Activation} {invocation : Invocation}
  {machine : Machine}

theorem clean_eval (proper : activation.Proper) (honest : expr.Honest depth activation) :
    Clean activation.machine.world.types ((expr.eval (Machine.call depth)).trail activation)
      ((expr.eval (Machine.call depth)).run activation) Value.Proper :=
  (safe_evalWith careful_safe (safe_callWith careful_safe depth) expr).clean_of_agree proper honest

theorem clean_run (proper : machine.Proper)
    (held : invocation.All (Value.Proper machine.world.types))
    (honest : invocation.Honest depth machine) :
    Clean machine.world.types ((invocation.run (Machine.call depth)).trail machine)
      ((invocation.run (Machine.call depth)).run machine) Value.Proper :=
  (Invocation.safe (safe_callWith careful_safe depth) held).clean_of_agree proper honest

end Runs

/-! ## Hosts -/

/-- The machine as it is, in another frame and with another global scope. -/
def Activation.switch (activation : Activation) (frame : Frame) (globals : GlobalScope) :
    Activation where
  frame := frame
  machine := { activation.machine with world := { activation.machine.world with globals } }

/-- What a host has: a runtime, and the values and errors that it has got hold of. -/
structure Host where
  activation : Activation
  values : List Value
  errors : List Error

namespace Host

/-- A host that has just made its runtime. -/
def start (limit : Option Nat) : Host := ⟨Session.start limit, [], []⟩

/-- The host after a run that has ended in this way. -/
def take (host : Host) : Outcome Value × Activation → Host
  | (.value value, after) => ⟨after, value :: host.values, host.errors⟩
  | (.raised error, after) => ⟨after, host.values, error :: host.errors⟩
  | (_, after) => { host with activation := after }

def addError (host : Host) (error : Error) : Host := { host with errors := error :: host.errors }

/-- What a host may do. -/
inductive Step : Host → Host → Prop where
  | literal {host : Host} (literal : Literal) :
      Step host { host with values := literal.value :: host.values }
  /-- Evaluate an expression. -/
  | evaluate {host : Host} {depth : Nat} {expr : Expr}
      (honest : expr.Honest depth host.activation) :
      Step host (host.take ((expr.eval (Machine.call depth)).run host.activation))
  /-- Call something with values. -/
  | invoke {host : Host} (depth : Nat) {invocation : Invocation}
      (held : invocation.All (· ∈ host.values))
      (honest : invocation.Honest depth host.activation.machine) :
      Step host (host.take
        ((Activation.onMachine (invocation.run (Machine.call depth))).run host.activation))
  /-- Perform an operation on values. -/
  | perform {host : Host} {op : Operation} {operands : List Value}
      (held : operands ⊆ host.values)
      (admissible : op.admissible host.activation.machine.world.types operands = true) :
      Step host (host.take ((Activation.perform op operands).run host.activation))
  /-- Define a function with shared defaults. -/
  | define {host : Host} {name : Name} {declarations : List Declaration} {doc : Option String}
      {body : Expr} {defaults : List Value} (held : defaults ⊆ host.values) :
      Step host (host.take
        ((Activation.define name declarations doc body defaults).run host.activation))
  /-- Go on in a frame and a global scope that hold values of one's own. -/
  | switch {host : Host} {frame : Frame} {globals : GlobalScope}
      (locals : frame.locals.Every (· ∈ host.values)) (scope : globals.Every (· ∈ host.values)) :
      Step host { host with activation := host.activation.switch frame globals }
  | ofCause {host : Host} (cause : Cause) : Step host (host.addError (.ofCause cause))
  | keyNotFound {host : Host} (names : TypeNames) (heap : Heap) {key : Value}
      (held : key ∈ host.values) : Step host (host.addError (.keyNotFound names heap key))
  | assertionFailed {host : Host} (names : TypeNames) (heap : Heap) {message : Option Value}
      (held : ∀ value ∈ message, value ∈ host.values) :
      Step host (host.addError (.assertionFailed names heap message))
  /-- Raise an exception type. -/
  | raised {host : Host} (names : TypeNames) (heap : Heap) {type : TypeId} {payload : Value}
      (exception : host.activation.machine.world.types.isSubtype type .exception = true)
      (held : payload ∈ host.values) : Step host (host.addError (.raised names heap type payload))
  | leave {host : Host} {error : Error} (held : error ∈ host.errors) (name : Name) :
      Step host (host.addError (error.leave name))
  /-- Make an error into a value. -/
  | wrap {host : Host} {error : Error} (id : Identity) (held : error ∈ host.errors) :
      Step host { host with values := error.toValue id :: host.values }
  | unwrap {host : Host} {value : Value} {error : Error} (held : value ∈ host.values)
      (made : value.asError = some error) : Step host (host.addError error)
  /-- Let a handler of one's own have an error. -/
  | handle {host : Host} {error : Error} (index : Nat) (held : error ∈ host.errors) :
      Step host { host with
        activation := ((Activation.enterHandler index error).run host.activation).2 }
  | finish {host : Host} :
      Step host { host with activation := (Activation.exitHandler.run host.activation).2 }

/-- All that the host has is proper. -/
structure Proper (host : Host) : Prop where
  activation : host.activation.Proper
  value : ∀ value ∈ host.values, value.Proper host.activation.machine.world.types
  error : ∀ error ∈ host.errors, error.Proper host.activation.machine.world.types

namespace Proper

variable {host : Host}

theorem addError (proper : host.Proper) {error : Error}
    (held : error.Proper host.activation.machine.world.types) : (host.addError error).Proper :=
  { proper with error := List.forall_mem_cons.mpr ⟨held, proper.error⟩ }

theorem withActivation (proper : host.Proper) {activation : Activation}
    (grows : host.activation.machine.world.types.Grows activation.machine.world.types)
    (after : activation.Proper) : Proper { host with activation } :=
  ⟨after, fun value member => (proper.value value member).mono grows,
    fun error member => (proper.error error member).mono grows⟩

/-- What comes out of a clean run is as proper as what the host had before. -/
theorem take (proper : host.Proper) {trail : List (Moment Activation)}
    {ended : Outcome Value × Activation}
    (clean : Clean host.activation.machine.world.types trail ended Value.Proper) :
    (host.take ended).Proper := by
  have kept := proper.withActivation clean.grows clean.last
  obtain ⟨outcome, after⟩ := ended
  cases outcome with
  | value value =>
      exact { kept with value := List.forall_mem_cons.mpr ⟨clean.outcome, kept.value⟩ }
  | raised error =>
      exact { kept with error := List.forall_mem_cons.mpr ⟨clean.outcome, kept.error⟩ }
  | broken defect => exact kept
  | outOfFuel => exact kept

theorem step {next : Host} (proper : host.Proper) (step : Step host next) : next.Proper := by
  have builtin := proper.activation.machine.world.builtin
  cases step with
  | literal literal =>
      exact { proper with value :=
        List.forall_mem_cons.mpr ⟨proper_literal literal, proper.value⟩ }
  | evaluate honest => exact proper.take (clean_eval proper.activation honest)
  | invoke depth held honest =>
      have safe := Invocation.safe (safe_callWith careful_safe depth) (held.imp proper.value)
      exact proper.take ((safe_onMachine safe).clean_of_agree proper.activation
        (honest.onPart Activation.machine _ host.activation))
  | perform held admissible =>
      refine proper.take (safe_perform admissible ?_ host.activation proper.activation (.refl _))
      exact fun operand member => proper.value operand (held member)
  | define held =>
      refine proper.take (safe_define _ _ _ _ ?_ host.activation proper.activation (.refl _))
      exact fun value member => proper.value value (held member)
  | switch locals scope =>
      have world := proper.activation.machine.world.withGlobals (scope.mono proper.value)
      exact proper.withActivation (.refl _)
        ⟨proper.activation.machine.withWorld (.refl _) world, locals.mono proper.value⟩
  | ofCause cause => exact proper.addError (.ofCause builtin cause)
  | keyNotFound names heap held =>
      exact proper.addError (.keyNotFound builtin names heap (proper.value _ held))
  | assertionFailed names heap held =>
      exact proper.addError (.assertionFailed builtin names heap fun value member =>
        proper.value value (held value member))
  | raised names heap exception held =>
      exact proper.addError (.raised names heap exception (proper.value _ held))
  | leave held name => exact proper.addError ((proper.error _ held).leave name)
  | wrap id held =>
      have made := (proper_toValue id).mpr (proper.error _ held)
      exact { proper with value := List.forall_mem_cons.mpr ⟨made, proper.value⟩ }
  | unwrap held made => exact proper.addError (proper_of_asError (proper.value _ held) made)
  | handle index held =>
      have entered := safe_enterHandler index (proper.error _ held) host.activation
        proper.activation (.refl _)
      exact proper.withActivation entered.grows entered.last
  | finish =>
      have exited := safe_exitHandler host.activation proper.activation (.refl _)
      exact proper.withActivation exited.grows exited.last

/-- All that a host ever has is proper. -/
theorem reached {limit : Option Nat} (reached : Relation.ReflTransGen Step (start limit) host) :
    host.Proper := by
  induction reached with
  | refl => exact ⟨Session.proper_start limit, nofun, nofun⟩
  | tail _ step ih => exact ih.step step

end Proper

end Host

/-! ## What is promised of errors -/

/-- What is promised of an error in a world, whatever is done with it from now on. -/
structure Error.Lasting (world : World) (error : Error) : Prop where
  wellFormed : error.WellFormed world.types
  /-- A clause that names `Exception` is chosen. -/
  chosen : Clause.select world.types error [.types [.exception]] = some 0
  /-- Among others, that clause or one before it is chosen. -/
  selected : ∀ filter clauses, .exception ∈ filter → .types filter ∈ clauses →
    (Clause.select world.types error clauses).isSome = true
  /-- Leaving a function changes nothing about this. -/
  leave : ∀ name, (error.leave name).WellFormed world.types
  /-- Made into a value and raised again it is the same error. -/
  again : ∀ id, world.raiseValue (error.toValue id) = error
  /-- Registering a type changes nothing about it. -/
  register : ∀ name parent, error.WellFormed (world.types.register name parent).2

theorem Error.WellFormed.lasting {world : World} {error : Error}
    (wellFormed : error.WellFormed world.types) : error.Lasting world where
  wellFormed := wellFormed
  chosen := by
    rw [Clause.select, List.findIdx?_cons, wellFormed.taken List.mem_cons_self]
    rfl
  selected _ _ named member := wellFormed.selected named member
  leave := wellFormed.leave
  again _ := rfl
  register name parent := wellFormed.mono (Registry.grows_register world.types name parent)

namespace Host

/--
Whatever a host does, all errors that it has, that are being handled or that are part of
a value are well formed; so are all errors on the way of every honest run from there, and
what is promised of them stays true.
-/
theorem every_error_is_well_formed {limit : Option Nat} {host : Host}
    (reached : Relation.ReflTransGen Step (start limit) host) :
    host.Proper ∧
    (∀ depth expr, Expr.Honest depth expr host.activation →
      Clean host.activation.machine.world.types
        ((expr.eval (Machine.call depth)).trail host.activation)
        ((expr.eval (Machine.call depth)).run host.activation) Value.Proper) ∧
    (∀ depth (invocation : Invocation),
      invocation.All (Value.Proper host.activation.machine.world.types) →
      invocation.Honest depth host.activation.machine →
      Clean host.activation.machine.world.types
        ((invocation.run (Machine.call depth)).trail host.activation.machine)
        ((invocation.run (Machine.call depth)).run host.activation.machine) Value.Proper) ∧
    host.activation.machine.reraise.WellFormed host.activation.machine.world.types ∧
    ∀ error : Error, error.WellFormed host.activation.machine.world.types →
      error.Lasting host.activation.machine.world := by
  have proper := Proper.reached reached
  refine ⟨proper, ?_, ?_, proper.activation.machine.reraise.wellFormed, fun _ held => held.lasting⟩
  · exact fun _ _ honest => clean_eval proper.activation honest
  · exact fun _ _ held honest => clean_run proper.activation.machine held honest

/-- Define an exception, and make an error of it. -/
def custom : Expr :=
  .sequence [.defineClass "Custom" (some (.named "KeyError")) [],
    .errorValue (.named "Custom") (.literal (.str "k"))]

theorem every_error_is_well_formed_custom :
    ∃ host error, Relation.ReflTransGen Step (start (some 10)) host ∧ error ∈ host.errors ∧
      error.type = ⟨25⟩ ∧ error.cause = .raised "k" ∧ error.message = "k" ∧
      error.Lasting host.activation.machine.world := by
  have honest : custom.Honest 0 (start (some 10)).activation := ⟨rfl, rfl⟩
  have reached : Relation.ReflTransGen Step (start (some 10)) _ :=
    .tail (.single (.evaluate honest)) (.unwrap List.mem_cons_self rfl)
  obtain ⟨proper, _, _, _, lasting⟩ := every_error_is_well_formed reached
  have made := (proper.error _ List.mem_cons_self).wellFormed
  exact ⟨_, _, reached, List.mem_cons_self, rfl, rfl, rfl, lasting _ made⟩

end Host

end ScriptCore
