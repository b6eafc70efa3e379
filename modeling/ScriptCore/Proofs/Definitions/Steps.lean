import ScriptCore.Proofs.World.Bodies

/-!
# Definitions among the steps of a world

A definition adds one body at the end of the table of bodies and hands out its place; a
user function is also recorded in the heap under a new identity.  Every other step of a
world, a refused definition among them, leaves alone what has been defined.  So a function
holds what it was defined with in every later world, and no later one is equal to it.
-/

namespace ScriptCore

/-- What is defined: how a function is called, and the body that it runs. -/
inductive Routine where
  | user (name : Name) (signature : Signature) (body : Expr)
  | native (name : Name) (arity : Option Nat) (builtin : Builtin)

/-- The body in the table. -/
def Routine.body : Routine → Body
  | user _ _ body => .user body
  | native _ _ builtin => .native builtin

namespace World

/-- The definition of a routine gives this value and leads to this world. -/
inductive Defines (world : World) : Routine → Value → World → Prop where
  | user {name : Name} {parameters : List Parameter} {doc : Option String} {body : Expr}
      {signature : Signature} {value : Value} {after : World}
      (accepted : Signature.ofParameters parameters = .ok signature)
      (defined : world.defineFunction name parameters doc body = .ok (value, after)) :
      Defines world (.user name signature body) value after
  | native (name : Name) (arity : Option Nat) (doc : Option String) (builtin : Builtin) :
      Defines world (.native name arity builtin) (world.defineNative name arity doc builtin).1
        (world.defineNative name arity doc builtin).2

/-- A world goes on to another by one definition, or by something that defines nothing. -/
inductive Advances (before : World) : World → Prop where
  | stays {after : World} (stays : before.Stays after) : Advances before after
  | defines {routine : Routine} {value : Value} {after : World}
      (defines : before.Defines routine value after) : Advances before after

section Definitions

variable {world after : World} {routine : Routine} {value : Value}

theorem defineFunction_eq_ok {name : Name} {parameters : List Parameter} {doc : Option String}
    {body : Expr} {signature : Signature}
    (accepted : Signature.ofParameters parameters = .ok signature) :
    world.defineFunction name parameters doc body = .ok ((world.addBody (.user body)).2.allocate
      (world.heap.newFunction ⟨name, signature, doc, ⟨world.bodies.length⟩⟩)) := by
  simp only [defineFunction, accepted]
  rfl

theorem value_of_defineFunction {name : Name} {parameters : List Parameter} {doc : Option String}
    {body : Expr} (defined : world.defineFunction name parameters doc body = .ok (value, after)) :
    value = .function ⟨world.heap.next⟩ := by
  unfold defineFunction at defined
  split at defined
  · cases defined
  · cases defined
    rfl

/-- A refused parameter list leads nowhere, and an accepted one is a definition. -/
theorem advances_defineFunction (world : World) (name : Name) (parameters : List Parameter)
    (doc : Option String) (body : Expr) :
    Gives (world.Advances ·.2) (world.defineFunction name parameters doc body) := by
  cases checked : Signature.ofParameters parameters with
  | error refused =>
      simp only [defineFunction, checked]
      exact gives_error _
  | ok signature => exact fun made defined => .defines (.user checked defined)

theorem Defines.bodies (defines : world.Defines routine value after) :
    after.bodies = world.bodies ++ [routine.body] := by
  cases defines with
  | user accepted defined =>
      rw [defineFunction_eq_ok accepted] at defined
      cases defined
      rfl
  | native => rfl

/-- A definition adds its own body to those that are there, and no other. -/
theorem Defines.body?_cases (defines : world.Defines routine value after) {place : BodyId}
    {body : Body} (found : after.body? place = some body) :
    world.body? place = some body ∨ place = ⟨world.bodies.length⟩ ∧ routine.body = body := by
  obtain ⟨index⟩ := place
  rw [World.body?, defines.bodies] at found
  rcases Nat.lt_trichotomy index world.bodies.length with old | rfl | beyond
  · rw [List.getElem?_append_left old] at found
    exact .inl found
  · rw [List.getElem?_concat_length] at found
    exact .inr ⟨rfl, Option.some_inj.mp found⟩
  · have outside : (world.bodies ++ [routine.body]).length ≤ index := by
      rw [List.length_append]
      exact beyond
    rw [List.getElem?_eq_none outside] at found
    cases found

theorem Defines.retains (defines : world.Defines routine value after) :
    world.heap.Retains after.heap := by
  cases defines with
  | user accepted defined =>
      rw [defineFunction_eq_ok accepted] at defined
      cases defined
      exact world.heap.retains_newFunction _
  | native => exact .refl _

/-- An operation may be the definition of a host function. -/
theorem Performs.advances (performs : world.Performs after) : world.Advances after := by
  cases performs with
  | stays stays => exact .stays stays
  | native name arity doc builtin => exact .defines (.native name arity doc builtin)

end Definitions

/-! ## What lasts -/

/-- The second world has all functions of the first one, with the same bodies. -/
structure Keeps (before after : World) : Prop where
  heap : before.heap.Retains after.heap
  bodies : before.bodies <+: after.bodies

/-- The value is a function that runs the routine, and its body has this place. -/
inductive Holds (world : World) : Routine → Value → BodyId → Prop where
  | user {name : Name} {signature : Signature} {body : Expr} {doc : Option String}
      {id : Identity} {place : BodyId} (known : id.index < world.heap.next)
      (recorded : world.heap.functions.get? id = some ⟨name, signature, doc, place⟩)
      (found : world.body? place = some (.user body)) :
      Holds world (.user name signature body) (.function id) place
  | native {name : Name} {arity : Option Nat} {doc : Option String} {builtin : Builtin}
      {place : BodyId} (found : world.body? place = some (.native builtin)) :
      Holds world (.native name arity builtin) (.native ⟨name, arity, doc, place⟩) place

section Lasting

variable {world before middle after : World} {routine other : Routine} {value known : Value}
  {place : BodyId}

theorem Keeps.refl (world : World) : world.Keeps world := ⟨.refl _, List.prefix_rfl⟩

theorem Keeps.trans (early : before.Keeps middle) (late : middle.Keeps after) :
    before.Keeps after :=
  ⟨early.heap.trans late.heap, early.bodies.trans late.bodies⟩

theorem Advances.keeps (advances : before.Advances after) : before.Keeps after := by
  cases advances with
  | stays stays => exact ⟨stays.heap, stays.bodies ▸ List.prefix_rfl⟩
  | defines defines => exact ⟨defines.retains, defines.bodies ▸ List.prefix_append _ _⟩

theorem Keeps.body? (keeps : before.Keeps after) {body : Body}
    (found : before.body? place = some body) : after.body? place = some body := by
  obtain ⟨there, same⟩ := List.getElem?_eq_some_iff.mp found
  rw [World.body?, List.prefix_iff_getElem?.mp keeps.bodies _ there, same]

theorem Holds.body? (holds : world.Holds routine value place) :
    world.body? place = some routine.body := by
  cases holds with
  | user _ _ found => exact found
  | native found => exact found

/-- A function runs the same routine in every later world. -/
theorem Holds.mono (keeps : before.Keeps after) (holds : before.Holds routine value place) :
    after.Holds routine value place := by
  cases holds with
  | user known recorded found =>
      have still := keeps.heap.function _ known
      exact .user (Nat.lt_of_lt_of_le known keeps.heap.next_le) (still.trans recorded)
        (keeps.body? found)
  | native found => exact .native (keeps.body? found)

/-- What has been defined is there right after the definition. -/
theorem Defines.holds (defines : world.Defines routine value after) :
    after.Holds routine value ⟨world.bodies.length⟩ := by
  cases defines with
  | user accepted defined =>
      rw [defineFunction_eq_ok accepted] at defined
      cases defined
      refine .user (Nat.lt_succ_self _) (Table.get?_set_self _ _ _) ?_
      exact List.getElem?_concat_length
  | native => exact .native List.getElem?_concat_length

theorem Holds.index_lt (holds : world.Holds routine value place) :
    place.index < world.bodies.length :=
  (List.getElem?_eq_some_iff.mp holds.body?).1

/-- A new function is equal to none that was there before. -/
theorem Defines.not_equal (defines : world.Defines routine value after)
    (holds : world.Holds other known place) : known.equal value = false := by
  have older := holds.index_lt
  cases defines with
  | user accepted defined =>
      rw [value_of_defineFunction defined]
      cases holds with
      | @user _ _ _ _ id _ handed _ _ =>
          have different : id ≠ ⟨world.heap.next⟩ := by
            rintro rfl
            exact Nat.lt_irrefl _ handed
          exact beq_false_of_ne different
      | native => rfl
  | native =>
      cases holds with
      | user => rfl
      | native =>
          have different : place ≠ ⟨world.bodies.length⟩ := by
            rintro rfl
            exact Nat.lt_irrefl _ older
          exact beq_false_of_ne different

/-- Definitions that lead to the same bodies give equal functions. -/
theorem Defines.equal {last : World} (defines : world.Defines routine value after)
    (again : world.Defines other known last) (same : after.bodies = last.bodies) :
    value.equal known = true := by
  rw [defines.bodies, again.bodies] at same
  have sort : [routine.body] = [other.body] := List.append_cancel_left same
  cases defines with
  | user _ defined =>
      rw [value_of_defineFunction defined]
      cases again with
      | user _ given =>
          rw [value_of_defineFunction given]
          exact beq_self_eq_true _
      | native => cases sort
  | native =>
      cases again with
      | user => cases sort
      | native => exact beq_self_eq_true _

end Lasting

end World

end ScriptCore
