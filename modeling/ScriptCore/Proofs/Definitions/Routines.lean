import ScriptCore.Proofs.Definitions.Steps
import ScriptCore.Proofs.Errors.Hosts
import ScriptCore.Proofs.Run.Methods
import ScriptCore.Proofs.Run.Natives
import ScriptCore.Proofs.Run.Refusal

/-!
# Calls of defined functions

A routine can be run without a table of bodies: there is no body that it could miss, and
none that it could take for its own.  A call that comes to a value which holds a routine does
what the routine does.
-/

namespace ScriptCore

/-! ## Running a routine -/

namespace Routine

/-- A native function takes no keywords, and as many arguments as it says. -/
def check (name : Name) (arity : Option Nat) (arguments : Arguments) : Except Error Unit :=
  let got := arguments.positional.length
  if arguments.hasKeywords then .error (.ofCause (.nativeKeywords name))
  else if arity.any (· ≠ got) then .error (.ofCause (.nativeArity name (arity.getD 0) got))
  else .ok ()

/-- Do what the routine does with the arguments of a call. -/
def run (call : Caller) (routine : Routine) (arguments : Arguments) : Computation Machine Value :=
  match routine with
  | user name signature body => Machine.within name do
      let bound ← Machine.update fun world =>
        (bind name signature arguments world.heap).map fun (bound, heap) =>
          (bound, { world with heap })
      Machine.inFrame (.ofArguments name bound) (body.eval call)
  | native name arity builtin => do
      let _ ← Computation.inspect fun _ => check name arity arguments
      Machine.runNative call builtin arguments.positional

end Routine

/-! ## Calls that come to a value -/

/-- What a call comes to in the end, with all receivers in front of the arguments. -/
inductive Machine.Comes (machine : Machine) : Invocation → Value → Arguments → Prop where
  | value {callee value : Value} {given arguments : Arguments}
      (unbound : unbind callee given = (value, arguments)) :
      Comes machine (.value callee given) value arguments
  | method {receiver found value : Value} {name : Name} {given arguments : Arguments}
      (looked : machine.world.getAttribute receiver name = .ok found)
      (unbound : unbind found given = (value, arguments)) :
      Comes machine (.method receiver name given) value arguments
  | fast {first found value : Value} {rest : List Value} {name : Name} {arguments : Arguments}
      (resolved : machine.world.types.resolve first.typeOf name = some found)
      (unbound : unbind found (.ofList (first :: rest)) = (value, arguments)) :
      Comes machine (.fast name (first :: rest)) value arguments

section Calls

variable {machine : Machine} {call : Caller} {routine : Routine} {value : Value} {place : BodyId}
  {arguments : Arguments}

theorem Machine.world_of_entered {name : Name} {entered : Machine}
    (ran : (Machine.enter name).run machine = (.value (), entered)) :
    entered.world = machine.world := by
  simp only [Machine.enter] at ran
  split at ran
  · cases ran
    rfl
  · cases ran

/-- Bodies that do the same in this world do the same within a function. -/
theorem Machine.agree_within {name : Name} {one other : Computation Machine Value}
    (agree : ∀ entered : Machine, entered.world = machine.world → one.Agree other entered) :
    (Machine.within name one).Agree (Machine.within name other) machine := by
  refine Computation.Agree.bind (.refl _ _) fun _ entered ran => ?_
  exact Computation.Agree.bind (agree entered (Machine.world_of_entered ran)).result
    fun _ _ _ => .refl _ _

/-- Binding arguments leaves the body where it is. -/
theorem Machine.agree_runBody {function : FunctionDef} {body : Expr}
    (found : machine.world.body? function.body = some (.user body)) :
    (Machine.runBody call function arguments).Agree
      (do
        let bound ← Machine.update (Machine.bindArguments function arguments)
        Machine.inFrame (.ofArguments function.name bound) (body.eval call)) machine := by
  refine Computation.Agree.bind (.refl _ _) fun bound after ran => ?_
  obtain ⟨world, accepted, rfl⟩ := Run.update_eq_value ran
  have stays := machine.world.stays_bindArguments function arguments _ accepted
  have still : world.body? function.body = some (.user body) := by
    rw [World.body?, stays.bodies]
    exact found
  refine Computation.agree_inspect_bind_of_ok _ ?_ _
  simp only [still]

theorem Machine.nativeBody_of_found {native : Native} {builtin : Builtin} {world : World}
    (found : world.body? native.body = some (.native builtin)) :
    Machine.nativeBody native arguments world =
      (Routine.check native.name native.arity arguments).map fun _ => builtin := by
  unfold Machine.nativeBody Routine.check
  rw [found]
  dsimp only
  split
  · rfl
  · split <;> rfl

/-- Refused arguments are refused before the table is asked. -/
theorem Machine.agree_callNative {native : Native} {builtin : Builtin}
    (found : machine.world.body? native.body = some (.native builtin)) :
    (Machine.callNative call native arguments).Agree
      ((Routine.native native.name native.arity builtin).run call arguments) machine := by
  have body : Machine.nativeBody native arguments machine.world = _ :=
    Machine.nativeBody_of_found found
  cases checked : Routine.check native.name native.arity arguments with
  | ok _ =>
      rw [checked] at body
      have ran : ((Routine.native native.name native.arity builtin).run call arguments).Agree
          (Machine.runNative call builtin arguments.positional) machine :=
        Computation.agree_inspect_bind_of_ok
          (fun _ => Routine.check native.name native.arity arguments) checked _
      exact (Machine.callNative_of_body body call).trans ran.symm
  | error error =>
      rw [checked] at body
      have called : (Machine.callNative call native arguments).Agree (.raise error) machine :=
        Computation.agree_inspect_bind_of_error
          (fun machine : Machine => Machine.nativeBody native arguments machine.world) body _
      have ran : ((Routine.native native.name native.arity builtin).run call arguments).Agree
          (.raise error) machine :=
        Computation.agree_inspect_bind_of_error
          (fun _ => Routine.check native.name native.arity arguments) checked _
      exact called.trans ran.symm

/-- A function that is no bound method does what its routine does. -/
theorem World.Holds.agree_callUnbound (holds : machine.world.Holds routine value place) :
    (Machine.callUnbound call value arguments).Agree (routine.run call arguments) machine := by
  cases holds with
  | @user name signature body doc id _ known recorded found =>
      have called : (Machine.callUnbound call (.function id) arguments).Agree
          (Machine.callFunction call ⟨name, signature, doc, place⟩ arguments) machine :=
        Computation.agree_inspect_bind_of_ok _ (by rw [recorded]) _
      -- Entering the function does not touch the table.
      refine called.trans (Machine.agree_within fun entered same => ?_)
      exact Machine.agree_runBody (by rw [same]; exact found)
  | native found => exact Machine.agree_callNative found

/-- However a call comes to a function, it does what the routine of the function does. -/
theorem World.Holds.agree_run {invocation : Invocation}
    (holds : machine.world.Holds routine value place)
    (comes : machine.Comes invocation value arguments) (depth : Nat) :
    (invocation.run (Machine.call (depth + 1))).Agree
      (routine.run (Machine.call depth) arguments) machine := by
  have called {callee : Value} {given : Arguments}
      (unbound : Machine.unbind callee given = (value, arguments)) :
      (Machine.call (depth + 1) callee given).Agree
        (routine.run (Machine.call depth) arguments) machine := by
    rw [Machine.call, unbound]
    exact holds.agree_callUnbound
  cases comes with
  | value unbound => exact called unbound
  | method looked unbound => exact (Caller.method_of_found looked _).trans (called unbound)
  | fast resolved unbound => exact (Caller.fast_of_resolved resolved _).trans (called unbound)

end Calls

end ScriptCore
