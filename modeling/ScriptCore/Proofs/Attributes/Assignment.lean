import ScriptCore.Builtin
import ScriptCore.Proofs.Registry.Changes

/-!
# Assigning attributes

An assignment attaches a value to an object or a function, documents a type or
defines a capability of one.  What is accepted reads back as it was given, unless
the target is a type that is not registered: then nothing is changed.
-/

namespace ScriptCore

namespace Heap

theorem attributesOf_setAttributes (heap : Heap) (id : Identity) (attributes : Attributes)
    (other : Identity) :
    (heap.setAttributes id attributes).attributesOf other =
      if id = other then attributes else heap.attributesOf other := by
  rw [attributesOf, setAttributes, Table.get?_set]
  split
  · rfl
  · rfl

theorem attributesOf_setAttribute (heap : Heap) (id : Identity) (name : Name) (value : Value)
    (other : Identity) :
    (heap.setAttribute id name value).attributesOf other =
      if id = other then (heap.attributesOf id).set name value else heap.attributesOf other :=
  heap.attributesOf_setAttributes id _ other

theorem attributesOf_eraseAttribute (heap : Heap) (id : Identity) (name : Name)
    (other : Identity) :
    (heap.eraseAttribute id name).attributesOf other =
      if id = other then (heap.attributesOf id).erase name else heap.attributesOf other :=
  heap.attributesOf_setAttributes id _ other

end Heap

/-- A name that a type defines itself means that on the type, whatever is above. -/
theorem Registry.resolve_of_ownCapability {registry : Registry} {type : TypeId} {name : Name}
    {value : Value} (defined : registry.ownCapability type name = some value) :
    registry.resolve type name = some value := by
  rw [resolve, ancestors, if_pos (contains_of_ownCapability defined), walk, List.findSome?_cons,
    defined]

namespace World

/-! ## What an accepted assignment does -/

/-- The worlds that accepted assignments lead to, one case for each kind of target. -/
inductive Assigns (world : World) (name : Name) (value : Value) : Value → World → Prop where
  | object (id : Identity) (type : TypeId) :
      Assigns world name value (.object id type)
        { world with heap := world.heap.setAttribute id name value }
  | function (id : Identity) :
      Assigns world name value (.function id)
        { world with heap := world.heap.setAttribute id name value }
  | doc (type : TypeId) {doc : String} (named : name = "__doc__") (text : value = .str doc) :
      Assigns world name value (.type type) { world with types := world.types.setDoc type doc }
  | capability (type : TypeId) (notDoc : name ≠ "__doc__") (notName : name ≠ "__name__")
      (notBase : name ≠ "__base__") :
      Assigns world name value (.type type)
        { world with types := world.types.setCapability type name value }

variable {world after : World} {target value : Value} {type : TypeId} {name : Name}

theorem assigns_of_setTypeAttribute
    (accepted : world.setTypeAttribute type name value = .ok after) :
    Assigns world name value (.type type) after := by
  unfold setTypeAttribute at accepted
  split at accepted
  · split at accepted
    · cases accepted
      exact .doc type rfl rfl
    · cases accepted
  · cases accepted
  · cases accepted
  · rename_i notDoc notName notBase
    cases accepted
    exact .capability type notDoc notName notBase

theorem assigns_of_setAttribute (accepted : world.setAttribute target name value = .ok after) :
    Assigns world name value target after := by
  unfold setAttribute at accepted
  split at accepted
  · cases accepted
    exact .object _ _
  · cases accepted
    exact .function _
  · exact assigns_of_setTypeAttribute accepted
  · cases accepted

/-! ## Reading back -/

theorem typeAttribute_eq_resolve (world : World) (type : TypeId) (notDoc : name ≠ "__doc__")
    (notName : name ≠ "__name__") (notBase : name ≠ "__base__") :
    world.typeAttribute type name = world.types.resolve type name := by
  unfold typeAttribute
  split
  · exact absurd rfl notName
  · exact absurd rfl notBase
  · exact absurd rfl notDoc
  · rfl

theorem lookupAttribute_of_own {found : Value} (own : world.ownAttribute value name = some found) :
    world.lookupAttribute value name = some found := by
  rw [lookupAttribute, own]

theorem lookupAttribute_of_type {found : Value}
    (defined : world.typeAttribute type name = some found) :
    world.lookupAttribute (.type type) name = some found := by
  have none : world.ownAttribute (.type type) name = none := rfl
  rw [lookupAttribute, none, Value.asType, Option.bind_some, defined]

/-- What was assigned is found on the target itself, ahead of anything inherited. -/
theorem Assigns.lookup_eq (assigned : Assigns world name value target after)
    (known : ∀ type, target = .type type → world.types.contains type = true) :
    after.lookupAttribute target name = some value := by
  cases assigned with
  | object id type =>
      apply lookupAttribute_of_own
      simp only [ownAttribute, Heap.attributesOf_setAttribute, if_true, Table.get?_set_self]
  | function id =>
      apply lookupAttribute_of_own
      simp only [ownAttribute, Heap.attributesOf_setAttribute, if_true, Table.get?_set_self]
  | doc type named text =>
      subst named text
      apply lookupAttribute_of_type
      simp only [typeAttribute, Registry.docOf_setDoc (known type rfl)]
      rfl
  | capability type notDoc notName notBase =>
      apply lookupAttribute_of_type
      rw [typeAttribute_eq_resolve _ _ notDoc notName notBase]
      apply Registry.resolve_of_ownCapability
      rw [Registry.ownCapability_setCapability, if_pos ⟨rfl, rfl, known type rfl⟩]

/-- An assignment to a type that is not registered leaves the world as it is. -/
theorem Assigns.eq_of_unknown (assigned : Assigns world name value (.type type) after)
    (unknown : world.types.contains type = false) : after = world := by
  cases assigned with
  | doc type named text => rw [Registry.setDoc, Registry.modify_of_unknown unknown]
  | capability type notDoc notName notBase =>
      rw [Registry.setCapability, Registry.modify_of_unknown unknown]

/--
What an assignment accepts reads back as it was given, whatever the target, the
name and the value are, except that nothing is changed if the target is a type
that is not registered.
-/
theorem accepted_attribute_reads_back
    (accepted : world.setAttribute target name value = .ok after) :
    ((∀ type, target = .type type → world.types.contains type = true) →
      after.getAttribute target name = .ok value ∧ after.hasAttribute target name = true) ∧
    ∀ type, target = .type type → world.types.contains type = false → after = world := by
  have assigned := assigns_of_setAttribute accepted
  constructor
  · intro known
    have found := assigned.lookup_eq known
    constructor
    · rw [getAttribute, found]
    · rw [hasAttribute, found, Option.isSome_some]
  · rintro type rfl unknown
    exact assigned.eq_of_unknown unknown

/-- Even the name that otherwise leads to the type of a value. -/
theorem accepted_attribute_reads_back_class :
    ∃ after, World.fresh.setAttribute (.type .keyError) "__class__" (.function ⟨0⟩) = .ok after ∧
      after.getAttribute (.type .keyError) "__class__" = .ok (.function ⟨0⟩) ∧
      after.hasAttribute (.type .keyError) "__class__" = true := by
  have accepted : World.fresh.setAttribute (.type .keyError) "__class__" (.function ⟨0⟩) =
      .ok { World.fresh with
        types := World.fresh.types.setCapability .keyError "__class__" (.function ⟨0⟩) } := rfl
  obtain ⟨found, has⟩ := (accepted_attribute_reads_back accepted).1 <| by
    rintro type ⟨⟩
    decide
  exact ⟨_, accepted, found, has⟩

theorem assignment_to_unknown_type_is_lost :
    World.fresh.setAttribute (.type ⟨99⟩) "x" (.int 1) = .ok World.fresh ∧
      World.fresh.hasAttribute (.type ⟨99⟩) "x" = false ∧
      ∀ value, World.fresh.getAttribute (.type ⟨99⟩) "x" ≠ .ok value := by
  have missing : World.fresh.lookupAttribute (.type ⟨99⟩) "x" = none := by rfl
  refine ⟨?_, ?_, ?_⟩
  · have unknown : World.fresh.types.contains ⟨99⟩ = false := by decide
    rw [setAttribute, setTypeAttribute, Registry.setCapability,
      Registry.modify_of_unknown unknown]
    all_goals decide
  · rw [hasAttribute, missing, Option.isSome_none]
  · intro value found
    rw [getAttribute, missing] at found
    cases found

end World

end ScriptCore
