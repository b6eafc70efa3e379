import ScriptCore.Proofs.Registry.Chains

/-!
# Changes of the registry

Registering a type adds it at the end and leaves the types before it alone.
Capabilities and documentation are changed on one type only, and no such change
moves a parent.  Walks look at parents alone, so they stay as they are.
-/

namespace ScriptCore.Registry

variable {registry : Registry} {type other parent : TypeId} {name : Name}

theorem contains_iff : registry.contains type = true ↔ type.index < registry.size :=
  decide_eq_true_iff

theorem get?_eq_none_iff : registry.get? type = none ↔ registry.contains type = false := by
  rw [get?, List.getElem?_eq_none_iff, contains, decide_eq_false_iff_not, Nat.not_lt]
  rfl

theorem contains_of_ownCapability {value : Value}
    (defined : registry.ownCapability type name = some value) : registry.contains type = true := by
  by_contra unknown
  rw [ownCapability, get?_eq_none_iff.mpr (Bool.eq_false_of_not_eq_true unknown)] at defined
  cases defined

/-- A registered type is below itself. -/
theorem isSubtype_self (known : registry.contains type = true) :
    registry.isSubtype type type = true := by
  rw [isSubtype, ancestors, if_pos known, walk, List.any_cons, decide_eq_true rfl, Bool.true_or]

/-! ## Changing one type -/

theorem get?_modify (registry : Registry) (type : TypeId) (change : TypeInfo → TypeInfo)
    (other : TypeId) :
    (registry.modify type change).get? other =
      if type = other then (registry.get? other).map change else registry.get? other := by
  simp only [modify, get?, List.getElem?_modify]
  by_cases same : type = other
  · simp only [same, if_true, Option.map_eq_map]
  · have apart : type.index ≠ other.index := fun equal => same (congrArg TypeId.mk equal)
    simp only [same, apart, if_false, Option.map_eq_map, Option.map_id']

/-- A part of a type that the change leaves alone is as before, of every type. -/
theorem bind_get?_modify {α : Type} (registry : Registry) (type other : TypeId)
    {change : TypeInfo → TypeInfo} {part : TypeInfo → Option α}
    (kept : ∀ info, part (change info) = part info) :
    ((registry.modify type change).get? other).bind part = (registry.get? other).bind part := by
  rw [get?_modify]
  split
  · rw [Option.bind_map]
    exact congrArg _ (funext kept)
  · rfl

/-- Registries with equally many types that have the same parents. -/
structure SameParents (before after : Registry) : Prop where
  size : after.size = before.size
  parentOf : ∀ type, after.parentOf type = before.parentOf type

@[simp]
theorem SameParents.refl (registry : Registry) : SameParents registry registry :=
  ⟨rfl, fun _ => rfl⟩

theorem SameParents.trans {before middle after : Registry} (early : SameParents before middle)
    (late : SameParents middle after) : SameParents before after :=
  ⟨late.size.trans early.size, fun type => (late.parentOf type).trans (early.parentOf type)⟩

theorem sameParents_modify (registry : Registry) (type : TypeId) (change : TypeInfo → TypeInfo)
    (kept : ∀ info, (change info).parent = info.parent) :
    SameParents registry (registry.modify type change) where
  size := List.length_modify ..
  parentOf other := bind_get?_modify registry type other kept

theorem sameParents_setCapability (registry : Registry) (type : TypeId) (name : Name)
    (value : Value) : SameParents registry (registry.setCapability type name value) :=
  sameParents_modify registry type _ fun _ => rfl

theorem sameParents_eraseCapability (registry : Registry) (type : TypeId) (name : Name) :
    SameParents registry (registry.eraseCapability type name) :=
  sameParents_modify registry type _ fun _ => rfl

theorem sameParents_setDoc (registry : Registry) (type : TypeId) (doc : String) :
    SameParents registry (registry.setDoc type doc) :=
  sameParents_modify registry type _ fun _ => rfl

namespace SameParents

variable {before after : Registry} (same : SameParents before after)

include same

theorem contains (type : TypeId) : after.contains type = before.contains type := by
  rw [Registry.contains, Registry.contains, same.size]

theorem parent_iff : after.Parent type parent ↔ before.Parent type parent := by
  rw [Parent, Parent, same.parentOf]

theorem walk (steps : Nat) (type : TypeId) : after.walk steps type = before.walk steps type := by
  induction steps generalizing type with
  | zero => rfl
  | succ steps ih => simp only [Registry.walk, same.parentOf, ih]

theorem ancestors (type : TypeId) : after.ancestors type = before.ancestors type := by
  rw [Registry.ancestors, Registry.ancestors, same.contains, same.size, same.walk]

end SameParents

/-- Where a capability is set, it has the new value; no other capability changes. -/
theorem ownCapability_setCapability (registry : Registry) (type : TypeId) (name : Name)
    (value : Value) (other : TypeId) (asked : Name) :
    (registry.setCapability type name value).ownCapability other asked =
      if type = other ∧ name = asked ∧ registry.contains other = true then some value
      else registry.ownCapability other asked := by
  rw [ownCapability, setCapability, get?_modify]
  by_cases here : type = other
  · rw [if_pos here]
    cases found : registry.get? other with
    | none =>
        have unknown := get?_eq_none_iff.mp found
        simp only [ownCapability, found, unknown, Option.map_none, Option.bind_none,
          Bool.false_eq_true, and_false, if_false]
    | some info =>
        have known : registry.contains other = true := by
          by_contra unknown
          rw [get?_eq_none_iff.mpr (Bool.eq_false_of_not_eq_true unknown)] at found
          cases found
        simp only [ownCapability, found, known, here, Option.map_some, Option.bind_some,
          Table.get?_set, and_true, true_and]
  · rw [if_neg here, if_neg fun all => here all.1]
    rfl

theorem nameOf_setCapability (registry : Registry) (type : TypeId) (name : Name) (value : Value)
    (other : TypeId) : (registry.setCapability type name value).nameOf other =
      registry.nameOf other := by
  rw [nameOf, nameOf, Option.map_eq_bind, Option.map_eq_bind]
  exact bind_get?_modify registry type other fun _ => rfl

theorem docOf_setCapability (registry : Registry) (type : TypeId) (name : Name) (value : Value)
    (other : TypeId) : (registry.setCapability type name value).docOf other =
      registry.docOf other :=
  bind_get?_modify registry type other fun _ => rfl

theorem docOf_setDoc (known : registry.contains type = true) (doc : String) :
    (registry.setDoc type doc).docOf type = some doc := by
  rw [docOf, setDoc, get?_modify, if_pos rfl]
  cases found : registry.get? type with
  | none =>
      rw [get?_eq_none_iff.mp found] at known
      cases known
  | some info => rfl

theorem ownCapability_setDoc (registry : Registry) (type : TypeId) (doc : String) (other : TypeId)
    (name : Name) :
    (registry.setDoc type doc).ownCapability other name = registry.ownCapability other name :=
  bind_get?_modify registry type other fun _ => rfl

/-- A definition that was given anew is taken away with the one before it. -/
theorem eraseCapability_setCapability (registry : Registry) (type : TypeId) (name : Name)
    (value : Value) :
    (registry.setCapability type name value).eraseCapability type name =
      registry.eraseCapability type name := by
  simp only [eraseCapability, setCapability, modify, List.modify_modify_eq, Function.comp_def,
    Table.erase_set_self]

/-- On a type that is not registered nothing is changed. -/
theorem modify_of_unknown (unknown : registry.contains type = false)
    (change : TypeInfo → TypeInfo) : registry.modify type change = registry := by
  have beyond : registry.types.length ≤ type.index :=
    List.getElem?_eq_none_iff.mp (get?_eq_none_iff.mpr unknown)
  exact congrArg Registry.mk (List.modify_eq_self beyond)

/-! ## Registering -/

/-- The types of the first registry stand in the second one as they are. -/
def Keeps (before after : Registry) : Prop :=
  ∀ type, before.contains type = true → after.get? type = before.get? type

namespace Keeps

variable {before middle after : Registry}

theorem refl (registry : Registry) : Keeps registry registry := fun _ _ => rfl

theorem contains (keeps : Keeps before after) (known : before.contains type = true) :
    after.contains type = true := by
  by_contra unknown
  have absent := get?_eq_none_iff.mpr (Bool.eq_false_of_not_eq_true unknown)
  rw [keeps type known, get?_eq_none_iff, known] at absent
  cases absent

theorem trans (early : Keeps before middle) (late : Keeps middle after) : Keeps before after :=
  fun type known => (late type (early.contains known)).trans (early type known)

theorem parentOf (keeps : Keeps before after) (known : before.contains type = true) :
    after.parentOf type = before.parentOf type := by
  rw [Registry.parentOf, keeps type known, Registry.parentOf]

theorem ownCapability (keeps : Keeps before after) (known : before.contains type = true)
    (name : Name) : after.ownCapability type name = before.ownCapability type name := by
  rw [Registry.ownCapability, keeps type known, Registry.ownCapability]

end Keeps

theorem keeps_register (registry : Registry) (name : Name) (parent : TypeId) :
    Keeps registry (registry.register name parent).2 := by
  intro type known
  unfold register
  cases registry.lookup name with
  | some known => rfl
  | none => exact List.getElem?_append_left (contains_iff.mp known)

/-- A type that is registered was so before, or it is new and has the parent named for it. -/
theorem contains_register
    (known : (registry.register name parent).2.contains type = true) :
    registry.contains type = true ∨
      (registry.register name parent).2.parentOf type = some parent := by
  rcases Nat.lt_or_ge type.index registry.size with old | new
  · exact .inl (contains_iff.mpr old)
  · refine .inr ?_
    unfold register at known ⊢
    cases found : registry.lookup name with
    | some same =>
        rw [found, contains_iff] at known
        exact absurd known (Nat.not_lt_of_ge new)
    | none =>
        rw [found, contains_iff, size, List.length_append, List.length_singleton] at known
        have last : type.index = registry.types.length :=
          Nat.le_antisymm (Nat.le_of_lt_succ known) new
        simp only [parentOf, get?, last, List.getElem?_concat_length, Option.bind_some]

/-- No capability comes with a registration. -/
theorem ownCapability_register (registry : Registry) (name : Name) (parent type : TypeId)
    (asked : Name) :
    (registry.register name parent).2.ownCapability type asked =
      registry.ownCapability type asked := by
  unfold register
  cases registry.lookup name with
  | some known => rfl
  | none =>
      simp only [ownCapability, get?]
      rcases Nat.lt_trichotomy type.index registry.types.length with old | new | unknown
      · rw [List.getElem?_append_left old]
      · rw [new, List.getElem?_concat_length, List.getElem?_eq_none (Nat.le_refl _)]
        rfl
      · rw [List.getElem?_eq_none (Nat.le_of_lt unknown), List.getElem?_eq_none]
        rw [List.length_append, List.length_singleton]
        exact unknown

theorem ownCapability_builtin (type : TypeId) (name : Name) :
    builtin.ownCapability type name = none := by
  rw [ownCapability, get?, builtin, List.getElem?_map, Option.bind_map]
  cases TypeId.builtins[type.index]? <;> rfl

end ScriptCore.Registry
