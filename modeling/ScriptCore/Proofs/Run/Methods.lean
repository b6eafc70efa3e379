import ScriptCore.Session

/-!
# Two ways to call a method

A method can be called on its receiver, through the lookup that binds it, or directly,
as what the type of the first argument defines, with the receiver as an argument like
the others.  Both ways go the same where the lookup comes to the type of the receiver
and finds a function there or nothing.
-/

namespace ScriptCore

/-- The values that a lookup binds to the receiver it was made for. -/
inductive Value.IsFunction : Value → Prop where
  | user (id : Identity) : IsFunction (.function id)
  | native (native : Native) : IsFunction (.native native)

/-! ## Lookups that come to the type of the receiver -/

namespace World

variable {world : World} {receiver found : Value} {name : Name}

theorem bindTo_of_isFunction (function : found.IsFunction) :
    bindTo receiver found = .boundMethod receiver found := by
  cases function with
  | user id => rfl
  | native native => rfl

/-- Without an attribute of its own, a value that is no type has what its type has. -/
theorem lookupAttribute_eq_resolve (noType : receiver.asType = none)
    (notClass : name ≠ "__class__") (unattached : world.ownAttribute receiver name = none) :
    world.lookupAttribute receiver name =
      (world.types.resolve receiver.typeOf name).map (bindTo receiver) := by
  rw [lookupAttribute, unattached, noType, Option.bind_none, inheritedAttribute, if_neg notClass]

/-- What the type of a value defines is found on the value, bound to it. -/
theorem getAttribute_of_resolved (noType : receiver.asType = none) (notClass : name ≠ "__class__")
    (unattached : world.ownAttribute receiver name = none)
    (resolved : world.types.resolve receiver.typeOf name = some found) :
    world.getAttribute receiver name = .ok (bindTo receiver found) := by
  rw [getAttribute, lookupAttribute_eq_resolve noType notClass unattached, resolved,
    Option.map_some]

theorem getAttribute_of_unresolved (noType : receiver.asType = none)
    (notClass : name ≠ "__class__") (unattached : world.ownAttribute receiver name = none)
    (unresolved : world.types.resolve receiver.typeOf name = none) :
    world.getAttribute receiver name = .error (world.noSuchAttribute receiver name) := by
  rw [getAttribute, lookupAttribute_eq_resolve noType notClass unattached, unresolved,
    Option.map_none]

end World

/-! ## Calls -/

/-- Calling a bound method is calling the method with the receiver in front. -/
theorem Machine.call_boundMethod (depth : Nat) (receiver method : Value) (arguments : Arguments) :
    call depth (.boundMethod receiver method) arguments =
      call depth method (arguments.withReceiver receiver) := by
  cases depth with
  | zero => rfl
  | succ depth => rfl

variable {machine : Machine} {call : Caller} {receiver found : Value} {name : Name}

/-- The direct way goes on with the method itself. -/
theorem Caller.fast_of_resolved
    (resolved : machine.world.types.resolve receiver.typeOf name = some found)
    (arguments : List Value) :
    (call.fast name (receiver :: arguments)).Agree (call found (.ofList (receiver :: arguments)))
      machine :=
  Computation.agree_inspect_bind_of_ok _ (by rw [resolved]) _

theorem Caller.fast_of_unresolved
    (unresolved : machine.world.types.resolve receiver.typeOf name = none)
    (arguments : List Value) :
    (call.fast name (receiver :: arguments)).Agree
      (.raise (machine.world.noSuchAttribute receiver name)) machine :=
  Computation.agree_inspect_bind_of_error _ (by rw [unresolved]) _

theorem Caller.method_of_found (looked : machine.world.getAttribute receiver name = .ok found)
    (arguments : Arguments) :
    (call.method receiver name arguments).Agree (call found arguments) machine :=
  Computation.agree_inspect_bind_of_ok
    (fun machine : Machine => machine.world.getAttribute receiver name) looked _

theorem Caller.method_of_missing {error : Error}
    (looked : machine.world.getAttribute receiver name = .error error) (arguments : Arguments) :
    (call.method receiver name arguments).Agree (.raise error) machine :=
  Computation.agree_inspect_bind_of_error
    (fun machine : Machine => machine.world.getAttribute receiver name) looked _

/--
Calling a method directly and calling it on the receiver give the same value or the
same error, leave the same machine and do the same on the way, whatever the arguments
are, unless the receiver is a type, has an attribute of its own by that name or
inherits something that is no function.  Where nothing is defined both fail alike.
-/
theorem fast_call_agrees_with_method_call (depth : Nat) (noType : receiver.asType = none)
    (notClass : name ≠ "__class__")
    (unattached : machine.world.ownAttribute receiver name = none)
    (function : ∀ found, machine.world.types.resolve receiver.typeOf name = some found →
      found.IsFunction)
    (arguments : List Value) :
    ((Machine.call depth).fast name (receiver :: arguments)).Agree
      ((Machine.call depth).method receiver name (.ofList arguments)) machine := by
  cases resolved : machine.world.types.resolve receiver.typeOf name with
  | none =>
      have looked := World.getAttribute_of_unresolved noType notClass unattached resolved
      exact (Caller.fast_of_unresolved resolved arguments).trans
        (Caller.method_of_missing looked (.ofList arguments)).symm
  | some found =>
      have looked := World.getAttribute_of_resolved noType notClass unattached resolved
      rw [World.bindTo_of_isFunction (function found resolved)] at looked
      have called : ((Machine.call depth).method receiver name (.ofList arguments)).Agree
          (Machine.call depth (.boundMethod receiver found) (.ofList arguments)) machine :=
        Caller.method_of_found looked _
      -- the receiver, bound by the lookup, comes in front of the arguments again
      rw [Machine.call_boundMethod] at called
      exact (Caller.fast_of_resolved resolved arguments).trans called.symm

/-- A class with a method that takes its receiver only, and an instance of it. -/
def withMethod : Machine :=
  (Session.step (Session.start (some 1)) (.sequence
    [.apply (.make (.defineClass "C" ["m"]))
       [.literal .none, .define "m" [⟨"self", .positional, .none⟩] none (.literal .none) []],
     .apply (.make (.object (.named "C") .plain)) []])).2.machine

/-- Both ways let the method in and fail at one argument too many, seen from within the method. -/
theorem fast_call_agrees_with_method_call_refused :
    ((Machine.call 1).method (.object ⟨1⟩ ⟨25⟩) "m" (.ofList [.int 7])).run withMethod =
        (.raised ((Error.ofCause (.tooManyPositional "m" 1 2)).leave "m"), withMethod) ∧
      ((Machine.call 1).fast "m" [.object ⟨1⟩ ⟨25⟩, .int 7]).run withMethod =
        ((Machine.call 1).method (.object ⟨1⟩ ⟨25⟩) "m" (.ofList [.int 7])).run withMethod := by
  have resolved : withMethod.world.types.resolve ⟨25⟩ "m" = some (.function ⟨0⟩) := rfl
  have function (found : Value)
      (defined : withMethod.world.types.resolve ⟨25⟩ "m" = some found) : found.IsFunction := by
    rw [resolved] at defined
    cases defined
    exact .user ⟨0⟩
  have named : "m" ≠ "__class__" := by decide
  have unattached : withMethod.world.ownAttribute (.object ⟨1⟩ ⟨25⟩) "m" = none := rfl
  have agree := fast_call_agrees_with_method_call 1 rfl named unattached function [.int 7]
  exact ⟨rfl, agree.1⟩

end ScriptCore
