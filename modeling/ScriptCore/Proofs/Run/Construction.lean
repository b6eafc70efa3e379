import ScriptCore.Proofs.Run.Methods
import ScriptCore.Proofs.Run.Refusal

/-!
# Calling types

A type can be called for three things: an exception type makes an error, a built-in
type converts, and any other type makes an instance and initialises it.  The arguments
are the payload, what is converted or what `__init__` is given.  A type that comes to
no `__init__` makes its instance all the same and has no use for them.
-/

namespace ScriptCore

namespace Run

variable {machine after : Machine} {call : Caller} {type : TypeId} {arguments : Arguments}
  {made : Value}

/-! ## Three kinds of types -/

theorem run_construct_of_exception (call : Caller) (arguments : Arguments)
    (exception : machine.world.types.isSubtype type .exception = true) :
    (Machine.construct call type arguments).run machine =
      (Machine.constructError type arguments).run machine := by
  have agree := agree_construct call type arguments machine
  rw [if_pos exception] at agree
  exact agree.1

section NoException

variable (notException : machine.world.types.isSubtype type .exception = false)

include notException

theorem run_construct_of_builtin (call : Caller) (arguments : Arguments)
    (builtin : type.isBuiltin = true) :
    (Machine.construct call type arguments).run machine =
      (Machine.constructBuiltin type arguments).run machine := by
  have agree := agree_construct call type arguments machine
  rw [if_neg (Bool.eq_false_iff.mp notException), if_pos builtin] at agree
  exact agree.1

theorem run_construct_of_user (call : Caller) (arguments : Arguments)
    (user : type.isBuiltin = false) :
    (Machine.construct call type arguments).run machine =
      (Machine.constructInstance call type arguments).run machine :=
  (agree_construct_of_user call notException user arguments).1

end NoException

/-! ## What comes of the arguments -/

/-- A change of the world gives a value exactly where the step does. -/
theorem update_eq_value_iff {α : Type} {step : World → Except Error (α × World)} {a : α} :
    (Machine.update step).run machine = (.value a, after) ↔
      ∃ world, step machine.world = .ok (a, world) ∧ after = { machine with world } := by
  refine ⟨update_eq_value, ?_⟩
  rintro ⟨world, stepped, rfl⟩
  simp only [Machine.update, Computation.update, stepped, Except.map]

/-- A new error of an exception type with this payload, and the world that has it. -/
def newError (world : World) (type : TypeId) (payload : Value) : Value × World :=
  world.allocate (world.heap.newError (.raised world.names world.heap type payload))

/-- The instance that a call of a user type makes. -/
def newInstance (machine : Machine) (type : TypeId) : Value :=
  (machine.world.heap.newInstance type).1

/-- An exception type takes no keywords and makes an error of all other arguments. -/
theorem constructError_eq_value_iff :
    (Machine.constructError type arguments).run machine = (.value made, after) ↔
      arguments.keywords = [] ∧ ∃ world,
        newError machine.world type (Machine.errorPayload arguments.positional) = (made, world) ∧
        after = { machine with world } := by
  rw [Machine.constructError, update_eq_value_iff]
  cases arguments.keywords with
  | nil =>
      constructor
      · rintro ⟨world, stepped, same⟩
        exact ⟨rfl, world, Except.ok.inj stepped, same⟩
      · rintro ⟨-, world, stepped, same⟩
        exact ⟨world, congrArg Except.ok stepped, same⟩
  | cons keyword rest => exact ⟨fun ⟨_, stepped, _⟩ => (nomatch stepped), nofun⟩

/-- A built-in type that is given something is given one value, and converts it. -/
theorem constructBuiltin_eq_value_iff (given : arguments.isEmpty = false) :
    (Machine.constructBuiltin type arguments).run machine = (.value made, after) ↔
      ∃ argument world, arguments = .ofList [argument] ∧
        machine.world.convertTo type argument = .ok (made, world) ∧
        after = { machine with world } := by
  obtain ⟨positional, keywords⟩ := arguments
  rw [Machine.constructBuiltin, update_eq_value_iff]
  rcases keywords with _ | ⟨keyword, rest⟩
  · rcases positional with _ | ⟨argument, _ | ⟨second, rest⟩⟩
    · cases given
    · constructor
      · rintro ⟨world, stepped, same⟩
        exact ⟨argument, world, rfl, stepped, same⟩
      · rintro ⟨_, world, same, stepped, ended⟩
        cases same
        exact ⟨world, stepped, ended⟩
    · exact ⟨fun ⟨_, stepped, _⟩ => (nomatch stepped), nofun⟩
  · exact ⟨fun ⟨_, stepped, _⟩ => (nomatch stepped), nofun⟩

/-- A user type looks for `__init__` when it has its instance. -/
theorem run_constructInstance {init : Option Value} (call : Caller) (arguments : Arguments)
    (resolved : machine.world.types.resolve type "__init__" = init) :
    (Machine.constructInstance call type arguments).run machine =
      (match init with
        | some init => do
            let _ ← call (.boundMethod (newInstance machine type) init) arguments
            return newInstance machine type
        | none => return newInstance machine type).run (withInstance machine type) := by
  have instanced : (Machine.update fun world =>
      .ok (world.allocate (world.heap.newInstance type))).run machine =
        (.value (newInstance machine type), withInstance machine type) := rfl
  have looked : (Computation.inspect fun machine : Machine =>
      .ok (machine.world.types.resolve type "__init__")).run (withInstance machine type) =
        (.value init, withInstance machine type) := by
    rw [← resolved]
    rfl
  refine (Computation.run_bind_of_value instanced _).trans ?_
  refine (Computation.run_bind_of_value looked _).trans ?_
  cases init with
  | some init => rfl
  | none => rfl

theorem constructInstance_eq_value_iff {init : Value}
    (resolved : machine.world.types.resolve type "__init__" = some init) :
    (Machine.constructInstance call type arguments).run machine = (.value made, after) ↔
      made = newInstance machine type ∧ ∃ result,
        (call (.boundMethod (newInstance machine type) init) arguments).run
          (withInstance machine type) = (.value result, after) := by
  rw [run_constructInstance call arguments resolved, Computation.run_bind_eq_value_iff]
  constructor
  · rintro ⟨result, last, ran, ended⟩
    cases ended
    exact ⟨rfl, result, ran⟩
  · rintro ⟨rfl, result, ran⟩
    exact ⟨result, after, ran, rfl⟩

/-- What a type that is called with something makes of it, and the machine that has it. -/
inductive Constructs (depth : Nat) (type : TypeId) (arguments : Arguments) (machine : Machine) :
    Value → Machine → Prop where
  /-- An exception type makes an error of which the arguments are the payload. -/
  | error {made : Value} {world : World}
      (exception : machine.world.types.isSubtype type .exception = true)
      (noKeywords : arguments.keywords = [])
      (errs : newError machine.world type (Machine.errorPayload arguments.positional) =
        (made, world)) :
      Constructs depth type arguments machine made { machine with world }
  /-- A built-in type converts the one argument. -/
  | converted {argument made : Value} {world : World}
      (notException : machine.world.types.isSubtype type .exception = false)
      (builtin : type.isBuiltin = true) (single : arguments = .ofList [argument])
      (converts : machine.world.convertTo type argument = .ok (made, world)) :
      Constructs depth type arguments machine made { machine with world }
  /-- The `__init__` of a user type is given the new instance and then the arguments. -/
  | initialised {init result : Value} {after : Machine}
      (notException : machine.world.types.isSubtype type .exception = false)
      (user : type.isBuiltin = false)
      (resolved : machine.world.types.resolve type "__init__" = some init)
      (ran : (Machine.call depth init
        (arguments.withReceiver (newInstance machine type))).run (withInstance machine type) =
          (.value result, after)) :
      Constructs depth type arguments machine (newInstance machine type) after
  /-- Without `__init__` there is an instance, and the arguments are lost. -/
  | lost (notException : machine.world.types.isSubtype type .exception = false)
      (user : type.isBuiltin = false)
      (unresolved : machine.world.types.resolve type "__init__" = none) :
      Constructs depth type arguments machine (newInstance machine type)
        (withInstance machine type)

theorem Constructs.run {depth : Nat} (given : arguments.isEmpty = false)
    (constructs : Constructs depth type arguments machine made after) :
    (Machine.call (depth + 1) (.type type) arguments).run machine = (.value made, after) := by
  change (Machine.construct (Machine.call depth) type arguments).run machine = _
  cases constructs with
  | error exception noKeywords errs =>
      rw [run_construct_of_exception _ arguments exception]
      exact constructError_eq_value_iff.mpr ⟨noKeywords, _, errs, rfl⟩
  | converted notException builtin single converts =>
      rw [run_construct_of_builtin notException _ arguments builtin]
      exact (constructBuiltin_eq_value_iff given).mpr ⟨_, _, single, converts, rfl⟩
  | @initialised init result _ notException user resolved ran =>
      rw [run_construct_of_user notException _ arguments user]
      refine (constructInstance_eq_value_iff resolved).mpr ⟨rfl, result, ?_⟩
      rw [Machine.call_boundMethod]
      exact ran
  | lost notException user unresolved =>
      rw [run_construct_of_user notException _ arguments user]
      exact run_constructInstance _ arguments unresolved

end Run

end ScriptCore
