import ScriptCore.Proofs.Attributes.Assignment
import ScriptCore.Proofs.World.Untouched

/-!
# Deleting attributes

Where nothing was set on the target itself, deleting what an assignment has set
takes the assignment back: every lookup finds what it found before.  Two
assignments are never taken back.  The documentation of a type is no definition
of the type, and a type that is not registered has kept nothing; for both the
deletion is refused.
-/

namespace ScriptCore

namespace World

variable {before after world : World} {target value : Value} {type : TypeId} {name : Name}

/-! ## What lookups depend on -/

/-- Worlds with the same types, the same functions and the same attributes everywhere. -/
structure SameAttributes (before after : World) : Prop where
  types : after.types = before.types
  functions : after.heap.functions = before.heap.functions
  attributes : ∀ id, after.heap.attributesOf id = before.heap.attributesOf id

/-- Every lookup, of whatever name on whatever value, finds the same. -/
theorem SameAttributes.lookupAttribute_eq (same : SameAttributes before after) (receiver : Value)
    (asked : Name) :
    after.lookupAttribute receiver asked = before.lookupAttribute receiver asked := by
  have own : after.ownAttribute receiver asked = before.ownAttribute receiver asked := by
    simp only [ownAttribute, same.attributes, same.functions]
  have typed (type : TypeId) : after.typeAttribute type asked = before.typeAttribute type asked := by
    simp only [typeAttribute, same.types]
  have last :
      after.inheritedAttribute receiver asked = before.inheritedAttribute receiver asked := by
    simp only [inheritedAttribute, same.types]
  simp only [lookupAttribute, own, typed, last]

/-! ## Taking an assignment back -/

/-- Nothing has been set for the name on the value itself. -/
def Unset (world : World) (target : Value) (name : Name) : Prop :=
  match target with
  | .object id _ | .function id => (world.heap.attributesOf id).get? name = none
  | .type type =>
      world.types.ownCapability type name = none ∧
        (name = "__doc__" → world.types.docOf type = none)
  | _ => True

/-- An attribute that was attached and removed again leaves no trace among the attributes. -/
theorem sameAttributes_reattached (world : World) (id : Identity) (value : Value)
    (absent : (world.heap.attributesOf id).get? name = none) :
    SameAttributes world
      { world with heap := (world.heap.setAttribute id name value).eraseAttribute id name } where
  types := rfl
  functions := rfl
  attributes other := by
    simp only [Heap.attributesOf_eraseAttribute, Heap.attributesOf_setAttribute, if_true,
      Table.erase_set_self, Table.erase_of_get?_eq_none absent]
    split
    · next same => rw [same]
    · rfl

theorem contains_setAttribute (heap : Heap) (id : Identity) (name : Name) (value : Value) :
    ((heap.setAttribute id name value).attributesOf id).contains name = true := by
  rw [Heap.attributesOf_setAttribute, if_pos rfl, Table.contains, Table.get?_set_self,
    Option.isSome_some]

/-- What is kept where deletions look for it is found there and taken away. -/
theorem Assigns.exists_restored (assigned : Assigns world name value target after)
    (unset : world.Unset target name)
    (kept : ∀ type, target = .type type →
      name ≠ "__doc__" ∧ world.types.contains type = true) :
    ∃ restored, after.deleteAttribute target name = .ok restored ∧
      SameAttributes world restored := by
  cases assigned with
  | object id type =>
      refine ⟨_, ?_, sameAttributes_reattached world id value unset⟩
      exact if_pos (contains_setAttribute world.heap id name value)
  | function id =>
      refine ⟨_, ?_, sameAttributes_reattached world id value unset⟩
      exact if_pos (contains_setAttribute world.heap id name value)
  | doc type named text => exact absurd named (kept type rfl).1
  | capability type notDoc notName notBase =>
      have known := (kept type rfl).2
      have defined : (world.types.setCapability type name value).ownCapability type name =
          some value := by
        rw [Registry.ownCapability_setCapability, if_pos ⟨rfl, rfl, known⟩]
      have whole : (world.types.setCapability type name value).eraseCapability type name =
          world.types := by
        rw [Registry.eraseCapability_setCapability, Registry.eraseCapability_of_absent unset.1]
      refine ⟨world, ?_, ⟨rfl, rfl, fun _ => rfl⟩⟩
      simp only [deleteAttribute, defined, Option.isSome_some, if_true, whole]

/-! ## What is never taken back -/

theorem deleteAttribute_of_undefined
    (undefined : world.types.ownCapability type name = none) :
    world.deleteAttribute (.type type) name =
      .error (world.noSuchAttribute (.type type) name) := by
  simp only [deleteAttribute, undefined, Option.isSome_none, Bool.false_eq_true, if_false]

/-- Documentation is kept apart from what a type defines. -/
theorem Assigns.ownCapability_of_doc (assigned : Assigns world "__doc__" value (.type type) after) :
    after.types.ownCapability type "__doc__" = world.types.ownCapability type "__doc__" := by
  cases assigned with
  | doc type named text => exact Registry.ownCapability_setDoc ..
  | capability type notDoc notName notBase => exact absurd rfl notDoc

theorem lookupAttribute_doc (undocumented : world.types.docOf type = none) :
    world.lookupAttribute (.type type) "__doc__" = some .none := by
  apply lookupAttribute_of_type
  simp only [typeAttribute, undocumented]
  rfl

/--
An assignment for which nothing was set on the target itself is taken back by
deleting the attribute: the deletion succeeds, and every lookup finds what it
found before the assignment.  Not so for the documentation of a type, which stays,
and for a type that is not registered, which has kept nothing: there the deletion
is refused.
-/
theorem deletion_undoes_assignment (unset : world.Unset target name)
    (accepted : world.setAttribute target name value = .ok after) :
    ((∀ type, target = .type type → name ≠ "__doc__" ∧ world.types.contains type = true) →
      ∃ restored, after.deleteAttribute target name = .ok restored ∧
        ∀ receiver asked,
          restored.lookupAttribute receiver asked = world.lookupAttribute receiver asked) ∧
    (∀ type, target = .type type → name = "__doc__" → world.types.contains type = true →
      after.deleteAttribute target name = .error (after.noSuchAttribute target name) ∧
        world.lookupAttribute target name = some .none ∧
        after.lookupAttribute target name = some value) ∧
    ∀ type, target = .type type → world.types.contains type = false →
      after.deleteAttribute target name = .error (after.noSuchAttribute target name) ∧
        after = world := by
  have assigned := assigns_of_setAttribute accepted
  refine ⟨?_, ?_, ?_⟩
  · intro kept
    obtain ⟨restored, deleted, same⟩ := assigned.exists_restored unset kept
    exact ⟨restored, deleted, same.lookupAttribute_eq⟩
  · rintro type rfl rfl known
    refine ⟨?_, lookupAttribute_doc (unset.2 rfl), ?_⟩
    · exact deleteAttribute_of_undefined (assigned.ownCapability_of_doc.trans unset.1)
    · refine assigned.lookup_eq ?_
      rintro type ⟨⟩
      exact known
  · rintro type rfl unknown
    have lost := assigned.eq_of_unknown unknown
    refine ⟨?_, lost⟩
    rw [lost]
    exact deleteAttribute_of_undefined unset.1

/-- Even the name that otherwise leads to the type of a value. -/
theorem deletion_undoes_assignment_class :
    ∃ after restored,
      World.fresh.setAttribute (.type .keyError) "__class__" (.function ⟨0⟩) = .ok after ∧
      after.lookupAttribute (.object ⟨7⟩ .keyError) "__class__" = some (.type .keyError) ∧
      after.lookupAttribute (.type .keyError) "__class__" = some (.function ⟨0⟩) ∧
      after.deleteAttribute (.type .keyError) "__class__" = .ok restored ∧
      restored.lookupAttribute (.type .keyError) "__class__" = some (.type .type) := by
  have accepted : World.fresh.setAttribute (.type .keyError) "__class__" (.function ⟨0⟩) =
      .ok { World.fresh with
        types := World.fresh.types.setCapability .keyError "__class__" (.function ⟨0⟩) } := rfl
  have unset : World.fresh.Unset (.type .keyError) "__class__" := ⟨rfl, nofun⟩
  obtain ⟨restored, deleted, same⟩ := (deletion_undoes_assignment unset accepted).1 <| by
    rintro type ⟨⟩
    decide
  refine ⟨_, restored, accepted, rfl, rfl, deleted, ?_⟩
  rw [same]
  rfl

/-- The documentation of a type is set but cannot be deleted. -/
theorem documentation_is_not_deleted :
    ∃ after, World.fresh.Unset (.type .object) "__doc__" ∧
      World.fresh.setAttribute (.type .object) "__doc__" (.str "x") = .ok after ∧
      (∀ restored, after.deleteAttribute (.type .object) "__doc__" ≠ .ok restored) ∧
      World.fresh.lookupAttribute (.type .object) "__doc__" = some .none ∧
      after.lookupAttribute (.type .object) "__doc__" = some (.str "x") := by
  have accepted : World.fresh.setAttribute (.type .object) "__doc__" (.str "x") =
      .ok { World.fresh with types := World.fresh.types.setDoc .object "x" } := rfl
  refine ⟨_, ⟨rfl, fun _ => rfl⟩, accepted, ?_, rfl, rfl⟩
  intro restored deleted
  rw [deleteAttribute_of_undefined (by rfl)] at deleted
  cases deleted

end World

end ScriptCore
