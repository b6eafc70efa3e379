import ScriptCore.Proofs.Run.Natives

/-!
# Clauses and instances

A clause with types takes an error exactly if the built-in function that asks for
instances says of the error, made into a value, that it is an instance of the tuple of
these types, or of one of them.  A tuple that holds something else than types as well is
asked only as far as that.
-/

namespace ScriptCore

/-! ## Asking candidates in order -/

namespace World

/-- Asking types in order, before whatever comes next, is asking whether any of them will do. -/
theorem isInstanceOfAny_types (world : World) (value : Value) (types : List TypeId)
    (rest : List Value) :
    world.isInstanceOfAny value (types.map .type ++ rest) =
      if types.any (world.types.isInstance value ·) then .ok true
      else world.isInstanceOfAny value rest := by
  induction types with
  | nil => rfl
  | cons type types ih =>
      rw [List.map_cons, List.cons_append, isInstanceOfAny, isInstanceOf, List.any_cons]
      cases world.types.isInstance value type with
      | true => rfl
      | false => exact ih

theorem isInstanceOf_of_no_type (world : World) (value : Value) {other : Value}
    (noType : other.asType = none) :
    world.isInstanceOf value other = .error (world.mismatch "type" other) := by
  unfold isInstanceOf
  split
  · cases noType
  · rfl

/-- Types, and then something that is no type, where no type was asked with success. -/
theorem isInstanceOfAny_split (world : World) (value : Value) (types : List TypeId)
    {other : Value} (noType : other.asType = none) (rest : List Value) :
    world.isInstanceOfAny value (types.map .type ++ other :: rest) =
      if types.any (world.types.isInstance value ·) then .ok true
      else .error (world.mismatch "type" other) := by
  rw [isInstanceOfAny_types, isInstanceOfAny, isInstanceOf_of_no_type world value noType]

end World

theorem Value.eq_type_of_asType {value : Value} {type : TypeId}
    (same : value.asType = some type) : value = .type type := by
  unfold asType at same
  split at same
  · cases same
    rfl
  · cases same

/-- Before the first candidate that is no type there are types only. -/
theorem Value.exists_split {candidates : List Value}
    (mixed : ∃ candidate ∈ candidates, candidate.asType = .none) :
    ∃ (types : List TypeId) (other : Value) (rest : List Value),
      candidates = types.map .type ++ other :: rest ∧ other.asType = .none := by
  induction candidates with
  | nil =>
      obtain ⟨_, member, _⟩ := mixed
      cases member
  | cons first candidates ih =>
      cases kind : first.asType with
      | none => exact ⟨[], first, candidates, rfl, kind⟩
      | some type =>
          have later : ∃ candidate ∈ candidates, candidate.asType = .none := by
            obtain ⟨candidate, member, noType⟩ := mixed
            rcases List.mem_cons.mp member with rfl | after
            · rw [kind] at noType
              cases noType
            · exact ⟨candidate, after, noType⟩
          obtain ⟨types, other, rest, rfl, noType⟩ := ih later
          exact ⟨type :: types, other, rest, by rw [eq_type_of_asType kind]; rfl, noType⟩

/-! ## Asking the built-in function -/

namespace Machine

variable {machine : Machine} {native : Native}

/-- Ask the built-in function for instances about an error that was made into a value. -/
def askInstance (depth : Nat) (native : Native) (error : Error) (id : Identity)
    (candidates : Value) : Computation Machine Value :=
  call (depth + 1) (.native native) (.ofList [error.toValue id, candidates])

section Asking

variable (installed : machine.world.Installed (.introspection .isInstance) (some 2) native)
  (depth : Nat) (error : Error) (id : Identity)

include installed

/-- Of a tuple the candidates are asked in order. -/
theorem askInstance_tuple (candidates : List Value) :
    (askInstance depth native error id (.tuple candidates)).run machine =
      match machine.world.isInstanceOfAny (error.toValue id) candidates with
      | .ok found => (.value (.bool found), machine)
      | .error mismatch => (.raised mismatch, machine) := by
  rw [askInstance, (call_simple installed (by simp) trivial depth).1]
  simp only [update, Computation.update, Builtin.runSimple, Introspection.run]
  cases machine.world.isInstanceOfAny (error.toValue id) candidates with
  | ok found => rfl
  | error mismatch => rfl

/-- A single type is asked itself. -/
theorem askInstance_type (type : TypeId) :
    (askInstance depth native error id (.type type)).run machine =
      (.value (.bool (machine.world.types.isSubtype error.type type)), machine) := by
  rw [askInstance, (call_simple installed (by simp) trivial depth).1]
  rfl

end Asking

end Machine

variable {machine : Machine} {native : Native}

/--
A clause with types takes an error exactly if the built-in function for instances says
true of the error and the tuple of these types, which it answers whatever the types are;
and exactly if it says true of one of the types alone.  In a tuple that holds something
else than types, only the types before it are asked, and a mismatch is raised if none of
them will do.  Nothing is changed by asking.
-/
theorem clause_takes_instances
    (installed : machine.world.Installed (.introspection .isInstance) (some 2) native)
    (depth : Nat) (error : Error) (id : Identity) :
    (∀ types : List TypeId,
      (Machine.askInstance depth native error id (.tuple (types.map .type))).run machine =
        (.value (.bool (Clause.matchesError machine.world.types error (.types types))), machine) ∧
      (Clause.matchesError machine.world.types error (.types types) = true ↔
        ∃ type ∈ types, (Machine.askInstance depth native error id (.type type)).run machine =
          (.value (.bool true), machine))) ∧
    (∀ (types : List TypeId) (other : Value) (rest : List Value), other.asType = none →
      (Machine.askInstance depth native error id
          (.tuple (types.map .type ++ other :: rest))).run machine =
        (if Clause.matchesError machine.world.types error (.types types) then
            Outcome.value (.bool true)
          else .raised (machine.world.mismatch "type" other), machine)) ∧
    ∀ candidates : List Value, (∃ candidate ∈ candidates, candidate.asType = none) →
      ∃ (types : List TypeId) (other : Value) (rest : List Value),
        candidates = types.map .type ++ other :: rest ∧ other.asType = none := by
  have asked (types : List TypeId) :
      types.any (machine.world.types.isInstance (error.toValue id) ·) =
        Clause.matchesError machine.world.types error (.types types) := rfl
  refine ⟨fun types => ⟨?_, ?_⟩, ?_, fun candidates => Value.exists_split⟩
  · have whole := machine.world.isInstanceOfAny_types (error.toValue id) types []
    rw [List.append_nil, asked] at whole
    rw [Machine.askInstance_tuple installed, whole]
    cases Clause.matchesError machine.world.types error (.types types) with
    | true => rfl
    | false => rfl
  · simp only [Machine.askInstance_type installed, ← asked, List.any_eq_true, Prod.mk.injEq,
      Outcome.value.injEq, Value.bool.injEq, and_true]
    rfl
  · intro types other rest noType
    rw [Machine.askInstance_tuple installed,
      World.isInstanceOfAny_split _ _ types noType rest, asked]
    cases Clause.matchesError machine.world.types error (.types types) with
    | true => rfl
    | false => rfl

/-- The built-in function for instances in a fresh machine. -/
def isinstance : Native :=
  ⟨"isinstance", some 2, some Introspection.isInstance.doc, ⟨20⟩⟩

/-- A type above that of the error is found, unless something that is no type comes first. -/
theorem clause_takes_instances_fresh :
    World.fresh.builtins.get? "isinstance" = some (.native isinstance) ∧
      (Machine.askInstance 0 isinstance (.ofCause (.keyNotFound "k")) ⟨0⟩
        (.tuple [.type .indexError, .type .lookupError])).run (.fresh {}) =
        (.value (.bool true), .fresh {}) ∧
      (Machine.askInstance 0 isinstance (.ofCause (.keyNotFound "k")) ⟨0⟩
        (.tuple [.type .indexError, .int 3, .type .lookupError])).run (.fresh {}) =
        (.raised (.ofCause (.typeMismatch "type" "int")), .fresh {}) := by
  have installed : (Machine.fresh {}).world.Installed (.introspection .isInstance) (some 2)
      isinstance := ⟨rfl, rfl⟩
  obtain ⟨pure, mixed, _⟩ := clause_takes_instances installed 0 (.ofCause (.keyNotFound "k")) ⟨0⟩
  refine ⟨rfl, ?_, ?_⟩
  · exact (pure [.indexError, .lookupError]).1
  · exact mixed [.indexError] (.int 3) [.type .lookupError] rfl

end ScriptCore
