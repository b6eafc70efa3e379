import ScriptCore.Heap

/-!
# Growth of the heap

Making a value hands out a new identity and leaves everything that is recorded
about the identities handed out before.  What objects hold and what is attached
to them may be overwritten later, but functions are retained as they are.
-/

namespace ScriptCore.Heap

/-- The second heap has handed out more identities and agrees with the first on the old ones. -/
structure Extends (before after : Heap) : Prop where
  next_le : before.next ≤ after.next
  payload : ∀ id, id.index < before.next → after.payload id = before.payload id
  attributes : ∀ id, id.index < before.next → after.attributesOf id = before.attributesOf id
  functions : ∀ id, id.index < before.next → after.functions.get? id = before.functions.get? id

namespace Extends

theorem refl (heap : Heap) : heap.Extends heap :=
  ⟨Nat.le_refl _, fun _ _ => rfl, fun _ _ => rfl, fun _ _ => rfl⟩

theorem trans {first middle last : Heap} (left : first.Extends middle)
    (right : middle.Extends last) : first.Extends last where
  next_le := Nat.le_trans left.next_le right.next_le
  payload id old := (right.payload id (Nat.lt_of_lt_of_le old left.next_le)).trans
    (left.payload id old)
  attributes id old := (right.attributes id (Nat.lt_of_lt_of_le old left.next_le)).trans
    (left.attributes id old)
  functions id old := (right.functions id (Nat.lt_of_lt_of_le old left.next_le)).trans
    (left.functions id old)

end Extends

/-- An identity that was handed out between the two heaps. -/
def IsNew (before after : Heap) (id : Identity) : Prop :=
  before.next ≤ id.index ∧ id.index < after.next

theorem IsNew.mono {first before after last : Heap} {id : Identity} (new : IsNew before after id)
    (left : first.Extends before) (right : after.Extends last) : IsNew first last id :=
  ⟨Nat.le_trans left.next_le new.1, Nat.lt_of_lt_of_le new.2 right.next_le⟩

/-- A new object has the contents it was made with and is known to nobody else. -/
theorem newObject_spec (heap : Heap) (type : TypeId) (payload : Payload) :
    ∃ id, (heap.newObject type payload).1 = .object id type ∧
      IsNew heap (heap.newObject type payload).2 id ∧
      (heap.newObject type payload).2.payload id = payload := by
  refine ⟨⟨heap.next⟩, rfl, ⟨Nat.le_refl _, Nat.lt_succ_self _⟩, ?_⟩
  simp [newObject, fresh, setPayload, Heap.payload]

theorem newObject_extends (heap : Heap) (type : TypeId) (payload : Payload) :
    heap.Extends (heap.newObject type payload).2 where
  next_le := Nat.le_succ _
  payload id old := by
    have different : (⟨heap.next⟩ : Identity) ≠ id := by
      rintro rfl
      exact Nat.lt_irrefl _ old
    simp [newObject, fresh, setPayload, Heap.payload, Table.get?_set_of_ne _ different]
  attributes _ _ := rfl
  functions _ _ := rfl

/-! ## Functions -/

/-- More identities may have been handed out; the old ones belong to the same functions. -/
structure Retains (before after : Heap) : Prop where
  next_le : before.next ≤ after.next
  function : ∀ id, id.index < before.next → after.functions.get? id = before.functions.get? id

section Retains

variable {before middle after : Heap}

@[simp]
theorem Retains.refl (heap : Heap) : heap.Retains heap := ⟨Nat.le_refl _, fun _ _ => rfl⟩

theorem Retains.trans (early : before.Retains middle) (late : middle.Retains after) :
    before.Retains after where
  next_le := Nat.le_trans early.next_le late.next_le
  function id old := (late.function id (Nat.lt_of_lt_of_le old early.next_le)).trans
    (early.function id old)

theorem Extends.retains (grown : before.Extends after) : before.Retains after :=
  ⟨grown.next_le, grown.functions⟩

variable (heap : Heap)

@[simp]
theorem retains_setPayload (id : Identity) (payload : Payload) :
    heap.Retains (heap.setPayload id payload) :=
  ⟨Nat.le_refl _, fun _ _ => rfl⟩

@[simp]
theorem retains_setAttributes (id : Identity) (attributes : Attributes) :
    heap.Retains (heap.setAttributes id attributes) :=
  ⟨Nat.le_refl _, fun _ _ => rfl⟩

@[simp]
theorem retains_newObject (type : TypeId) (payload : Payload) :
    heap.Retains (heap.newObject type payload).2 :=
  (heap.newObject_extends type payload).retains

@[simp]
theorem retains_newInstance (type : TypeId) : heap.Retains (heap.newInstance type).2 :=
  heap.retains_newObject type .plain

@[simp]
theorem retains_newList (items : List Value) : heap.Retains (heap.newList items).2 :=
  heap.retains_newObject .list (.list items)

@[simp]
theorem retains_newDict (mapping : Mapping) : heap.Retains (heap.newDict mapping).2 :=
  heap.retains_newObject .dict (.mapping mapping)

@[simp]
theorem retains_newError (error : Error) : heap.Retains (heap.newError error).2 :=
  ⟨Nat.le_succ _, fun _ _ => rfl⟩

/-- A new function gets an identity that no older one has. -/
theorem retains_newFunction (function : FunctionDef) :
    heap.Retains (heap.newFunction function).2 where
  next_le := Nat.le_succ _
  function id old := by
    have different : (⟨heap.next⟩ : Identity) ≠ id := by
      rintro rfl
      exact Nat.lt_irrefl _ old
    exact Table.get?_set_of_ne _ different _

end Retains

end ScriptCore.Heap
