import Mathlib.Logic.Relation
import ScriptCore.Proofs.Registry.Changes

/-!
# Subtyping

Where every type is registered below a registered one, subtyping is the order of
a tree with root `object`.  All questions about a type follow the one walk up
that tree, and registering more types changes no answer about a type that is
there already.
-/

namespace ScriptCore.Registry

/--
Registries that come from the built-in one by registering types below registered
ones and by changing what types define and how they are documented.
-/
inductive Built : Registry → Prop where
  | builtin : Built builtin
  | register {registry : Registry} (built : Built registry) (name : Name) {parent : TypeId}
      (known : registry.contains parent = true) : Built (registry.register name parent).2
  | setCapability {registry : Registry} (built : Built registry) (type : TypeId) (name : Name)
      (value : Value) : Built (registry.setCapability type name value)
  | eraseCapability {registry : Registry} (built : Built registry) (type : TypeId)
      (name : Name) : Built (registry.eraseCapability type name)
  | setDoc {registry : Registry} (built : Built registry) (type : TypeId) (doc : String) :
      Built (registry.setDoc type doc)

/-- The first type is the second one, or the second one is above it. -/
def Derives (registry : Registry) : TypeId → TypeId → Prop :=
  Relation.ReflTransGen registry.Parent

variable {registry before after : Registry} {type other first second third : TypeId}
  {name : Name} {chain : List TypeId}

/-! ## What stands on a walk -/

theorem mem_ancestors_iff :
    other ∈ registry.ancestors type ↔ registry.isSubtype type other = true := by
  rw [isSubtype, List.any_eq_true]
  simp only [decide_eq_true_eq, exists_eq_right]

theorem contains_of_isSubtype (below : registry.isSubtype type other = true) :
    registry.contains type = true := by
  by_contra unknown
  rw [isSubtype, ancestors, if_neg unknown] at below
  cases below

namespace Chain

theorem head?_eq (walk : Chain registry type chain) : chain.head? = some type := by
  cases walk <;> rfl

theorem exists_last (walk : Chain registry type chain) :
    ∃ last, chain.getLast? = some last ∧ last ∈ chain ∧ registry.parentOf last = none := by
  induction walk with
  | @last type root => exact ⟨type, rfl, List.mem_cons_self, root⟩
  | step up later ih =>
      obtain ⟨last, found, member, root⟩ := ih
      refine ⟨last, ?_, List.mem_cons_of_mem _ member, root⟩
      rw [List.getLast?_cons, found, Option.getD_some]

theorem mem_iff_derives (walk : Chain registry type chain) :
    other ∈ chain ↔ registry.Derives type other := by
  induction walk with
  | @last type root =>
      rw [List.mem_singleton]
      constructor
      · rintro rfl
        exact .refl
      · intro above
        rcases above.cases_head with same | ⟨parent, up, _⟩
        · exact same.symm
        · rw [Parent, root] at up
          cases up
  | @step type parent rest up later ih =>
      rw [List.mem_cons, ih]
      constructor
      · rintro (rfl | above)
        · exact .refl
        · exact .head up above
      · intro above
        rcases above.cases_head with same | ⟨next, again, rest⟩
        · exact .inl same.symm
        · rw [Parent, up] at again
          cases again
          exact .inr rest

/-- A type on the walk has no types above it but those on the walk. -/
theorem ancestors_subset (walk : Chain registry type chain)
    (below : registry.isSubtype type other = true) :
    registry.ancestors other ⊆ registry.ancestors type := by
  intro upper above
  have member := mem_ancestors_iff.mpr below
  rw [walk.ancestors_eq (contains_of_isSubtype below)] at member ⊢
  obtain ⟨rest, later, _⟩ := walk.of_mem member
  rw [later.ancestors_eq (contains_of_isSubtype (mem_ancestors_iff.mp above))] at above
  rw [walk.mem_iff_derives] at member ⊢
  exact member.trans (later.mem_iff_derives.mp above)

theorem pairwise_derives (walk : Chain registry type chain) : chain.Pairwise registry.Derives := by
  induction walk with
  | last root => exact List.pairwise_singleton _ _
  | step up later ih =>
      refine List.pairwise_cons.mpr ⟨fun upper member => ?_, ih⟩
      exact .head up (later.mem_iff_derives.mp member)

end Chain

theorem Derives.total (left : registry.Derives type first) (right : registry.Derives type second) :
    registry.Derives first second ∨ registry.Derives second first := by
  have parents : Relator.RightUnique registry.Parent := fun _ _ _ up again =>
    Option.some.inj (up.symm.trans again)
  exact Relation.ReflTransGen.total_of_right_unique parents left right

/-! ## Trees of types -/

/-- Every type comes after its parent, and only `object` has none. -/
structure Rooted (registry : Registry) : Prop where
  object : registry.contains .object = true
  parent_lt : ∀ {type parent}, registry.Parent type parent → parent.index < type.index
  eq_object : ∀ {type}, registry.contains type = true → registry.parentOf type = none →
    type = .object

theorem rooted_builtin : Rooted builtin where
  object := rfl
  parent_lt up := (Registered.builtin).parent_lt up
  eq_object {type} known root := by
    have all : ∀ index < builtin.size, builtin.parentOf ⟨index⟩ = none → index = 0 := by decide
    exact congrArg TypeId.mk (all type.index (contains_iff.mp known) root)

theorem Rooted.of_sameParents (same : SameParents before after) (rooted : Rooted before) :
    Rooted after where
  object := (same.contains _).trans rooted.object
  parent_lt up := rooted.parent_lt (same.parent_iff.mp up)
  eq_object known root := by
    rw [same.contains] at known
    rw [same.parentOf] at root
    exact rooted.eq_object known root

/-- A type registered below a registered one comes last and is no root. -/
theorem Rooted.register (rooted : Rooted registry) (name : Name) {parent : TypeId}
    (known : registry.contains parent = true) : Rooted (registry.register name parent).2 where
  object := (keeps_register registry name parent).contains rooted.object
  parent_lt {type upper} up := by
    rcases parentOf_register registry name parent type with old | ⟨new, named⟩
    · rw [Parent, old] at up
      exact rooted.parent_lt up
    · rw [Parent, named] at up
      cases up
      exact new ▸ contains_iff.mp known
  eq_object {type} registered root := by
    rcases contains_register registered with old | new
    · rw [(keeps_register registry name parent).parentOf old] at root
      exact rooted.eq_object old root
    · rw [new] at root
      cases root

theorem Built.rooted (built : Built registry) : Rooted registry := by
  induction built with
  | builtin => exact rooted_builtin
  | register _ name known ih => exact ih.register name known
  | setCapability _ type name value ih =>
      exact ih.of_sameParents (sameParents_setCapability _ type name value)
  | eraseCapability _ type name ih =>
      exact ih.of_sameParents (sameParents_eraseCapability _ type name)
  | setDoc _ type doc ih => exact ih.of_sameParents (sameParents_setDoc _ type doc)

namespace Rooted

variable (rooted : Rooted registry)

include rooted

theorem exists_chain (type : TypeId) : ∃ chain, Chain registry type chain :=
  exists_chain_of_parents_first fun _ _ up => .inl (rooted.parent_lt up)

theorem index_le (above : registry.Derives type other) : other.index ≤ type.index := by
  induction above with
  | refl => exact Nat.le_refl _
  | tail _ up ih => exact Nat.le_trans (Nat.le_of_lt (rooted.parent_lt up)) ih

theorem contains_of_derives (known : registry.contains type = true)
    (above : registry.Derives type other) : registry.contains other = true := by
  rw [contains_iff] at known ⊢
  exact Nat.lt_of_le_of_lt (rooted.index_le above) known

theorem derives_antisymm (up : registry.Derives type other) (down : registry.Derives other type) :
    type = other :=
  congrArg TypeId.mk (Nat.le_antisymm (rooted.index_le down) (rooted.index_le up))

/-- The types asked about a registered type are those on its walk. -/
theorem exists_ancestors (known : registry.contains type = true) :
    ∃ chain, Chain registry type chain ∧ registry.ancestors type = chain := by
  obtain ⟨chain, walk⟩ := rooted.exists_chain type
  exact ⟨chain, walk, walk.ancestors_eq known⟩

theorem isSubtype_iff (known : registry.contains type = true) :
    registry.isSubtype type other = true ↔ registry.Derives type other := by
  obtain ⟨chain, walk, same⟩ := rooted.exists_ancestors known
  rw [isSubtype, same, ← walk.mem_iff_derives, List.any_eq_true]
  simp only [decide_eq_true_eq, exists_eq_right]

theorem last_eq_object (known : registry.contains type = true) :
    (registry.ancestors type).getLast? = some .object := by
  obtain ⟨chain, walk, same⟩ := rooted.exists_ancestors known
  obtain ⟨last, found, member, root⟩ := walk.exists_last
  have registered := rooted.contains_of_derives known (walk.mem_iff_derives.mp member)
  rw [same, found, rooted.eq_object registered root]

theorem derives_object (known : registry.contains type = true) :
    registry.Derives type .object := by
  obtain ⟨chain, walk, same⟩ := rooted.exists_ancestors known
  have last := rooted.last_eq_object known
  rw [same] at last
  exact walk.mem_iff_derives.mp (List.mem_of_getLast? last)

end Rooted

/-! ## The nearest definition -/

/-- The owner is the nearest one of the types above, this one included, that define the name. -/
structure Nearest (registry : Registry) (type : TypeId) (name : Name) (owner : TypeId) : Prop where
  above : registry.Derives type owner
  defines : registry.ownCapability owner name ≠ none
  least : ∀ other, registry.Derives type other → registry.ownCapability other name ≠ none →
    registry.Derives owner other

/-- A type above that does not stand before a type of the walk is above that type too. -/
theorem Chain.derives_of_not_mem {nearer farther : List TypeId}
    (walk : Chain registry type (nearer ++ first :: farther))
    (above : registry.Derives type other) (apart : other ∉ nearer) :
    registry.Derives first other := by
  rcases List.mem_append.mp (walk.mem_iff_derives.mpr above) with before | after
  · exact absurd before apart
  · rcases List.mem_cons.mp after with rfl | later
    · exact .refl
    · have ordered := (List.pairwise_append.mp walk.pairwise_derives).2.1
      exact (List.pairwise_cons.mp ordered).1 other later

namespace Rooted

variable {value : Value} (rooted : Rooted registry)

include rooted

theorem nearest_unique (left : Nearest registry type name first)
    (right : Nearest registry type name second) : first = second :=
  rooted.derives_antisymm (left.least second right.above right.defines)
    (right.least first left.above left.defines)

theorem resolve_eq_none_iff (known : registry.contains type = true) :
    registry.resolve type name = none ↔
      ∀ owner, registry.Derives type owner → registry.ownCapability owner name = none := by
  obtain ⟨chain, walk, same⟩ := rooted.exists_ancestors known
  simp only [resolve, same, List.findSome?_eq_none_iff, walk.mem_iff_derives]

theorem nearest_of_resolve (known : registry.contains type = true)
    (found : registry.resolve type name = some value) :
    ∃ owner, Nearest registry type name owner ∧ registry.ownCapability owner name = some value := by
  obtain ⟨chain, walk, same⟩ := rooted.exists_ancestors known
  rw [resolve, same] at found
  obtain ⟨nearer, owner, farther, rfl, defined, lacking⟩ := List.findSome?_eq_some_iff.mp found
  have member : owner ∈ nearer ++ owner :: farther :=
    List.mem_append_right nearer List.mem_cons_self
  refine ⟨owner, ⟨walk.mem_iff_derives.mp member, by rw [defined]; exact nofun, ?_⟩, defined⟩
  intro other above defines
  exact walk.derives_of_not_mem above fun before => defines (lacking other before)

/-- Resolving a name gives what the nearest type that defines it says. -/
theorem resolve_eq_some_iff (known : registry.contains type = true) :
    registry.resolve type name = some value ↔
      ∃ owner, Nearest registry type name owner ∧
        registry.ownCapability owner name = some value := by
  refine ⟨rooted.nearest_of_resolve known, ?_⟩
  rintro ⟨owner, nearest, defined⟩
  cases found : registry.resolve type name with
  | none =>
      have lacking := (rooted.resolve_eq_none_iff known).mp found owner nearest.above
      exact absurd lacking nearest.defines
  | some value' =>
      obtain ⟨owner', nearest', defined'⟩ := rooted.nearest_of_resolve known found
      rw [← defined', ← defined, rooted.nearest_unique nearest nearest']

end Rooted

/-! ## Later registrations -/

/-- Register types one after the other, below whatever parents are named. -/
def registerAll (registry : Registry) (later : List (Name × TypeId)) : Registry :=
  later.foldl (fun current entry => (current.register entry.1 entry.2).2) registry

theorem keeps_registerAll (registry : Registry) (later : List (Name × TypeId)) :
    Keeps registry (registry.registerAll later) := by
  induction later generalizing registry with
  | nil => exact .refl registry
  | cons entry later ih => exact (keeps_register registry entry.1 entry.2).trans (ih _)

/-- A walk stays what it is, because all types on it are registered already. -/
theorem Chain.of_keeps (rooted : Rooted before) (keeps : Keeps before after)
    (known : before.contains type = true) (walk : Chain before type chain) :
    Chain after type chain := by
  induction walk with
  | last root => exact .last ((keeps.parentOf known).trans root)
  | step up later ih =>
      have upper := rooted.contains_of_derives known (.single up)
      exact .step ((keeps.parentOf known).trans up) (ih upper)

/-- What is asked about the types of the first registry has the same answers in the second. -/
structure SameAnswers (before after : Registry) : Prop where
  contains : ∀ {type}, before.contains type = true → after.contains type = true
  ancestors : ∀ {type}, before.contains type = true →
    after.ancestors type = before.ancestors type
  isSubtype : ∀ {type} ancestor, before.contains type = true →
    after.isSubtype type ancestor = before.isSubtype type ancestor
  resolve : ∀ {type} name, before.contains type = true →
    after.resolve type name = before.resolve type name
  isInstance : ∀ {value : Value} type, before.contains value.typeOf = true →
    after.isInstance value type = before.isInstance value type

theorem Rooted.sameAnswers (rooted : Rooted before) (keeps : Keeps before after) :
    SameAnswers before after := by
  have walks {type : TypeId} (known : before.contains type = true) :
      after.ancestors type = before.ancestors type := by
    obtain ⟨chain, walk, same⟩ := rooted.exists_ancestors known
    rw [same, (walk.of_keeps rooted keeps known).ancestors_eq (keeps.contains known)]
  refine ⟨keeps.contains, walks, ?_, ?_, ?_⟩
  · intro type ancestor known
    rw [Registry.isSubtype, walks known, Registry.isSubtype]
  · intro type name known
    obtain ⟨chain, walk, same⟩ := rooted.exists_ancestors known
    rw [Registry.resolve, walks known, Registry.resolve, ← List.head?_filterMap,
      ← List.head?_filterMap]
    refine congrArg _ (List.filterMap_congr fun other member => ?_)
    rw [same, walk.mem_iff_derives] at member
    exact keeps.ownCapability (rooted.contains_of_derives known member) name
  · intro value type known
    rw [Registry.isInstance, Registry.isSubtype, walks known, Registry.isInstance,
      Registry.isSubtype]

/-! ## The tree of types -/

/-- Subtyping is the order of a tree, and every question about a type follows it. -/
structure TreeOrder (registry : Registry) : Prop where
  /-- Supertypes are what parents lead up to. -/
  isSubtype_iff : ∀ {type other}, registry.contains type = true →
    (registry.isSubtype type other = true ↔ registry.Derives type other)
  refl : ∀ {type}, registry.contains type = true → registry.isSubtype type type = true
  antisymm : ∀ {type other}, registry.isSubtype type other = true →
    registry.isSubtype other type = true → type = other
  trans : ∀ {first second third}, registry.isSubtype first second = true →
    registry.isSubtype second third = true → registry.isSubtype first third = true
  object : ∀ {type}, registry.contains type = true → registry.isSubtype type .object = true
  comparable : ∀ {type first second}, registry.isSubtype type first = true →
    registry.isSubtype type second = true →
    registry.isSubtype first second = true ∨ registry.isSubtype second first = true
  /-- The walk has no bound of its own that cuts it off. -/
  walk : ∀ {type}, registry.contains type = true →
    Chain registry type (registry.ancestors type)
  /-- It starts at the type, ends at `object` and lists the supertypes, nearest first. -/
  starts : ∀ {type}, registry.contains type = true → (registry.ancestors type).head? = some type
  ends : ∀ {type}, registry.contains type = true →
    (registry.ancestors type).getLast? = some .object
  lists : ∀ {type other}, other ∈ registry.ancestors type ↔ registry.isSubtype type other = true
  nearestFirst : ∀ {type}, (registry.ancestors type).Pairwise fun lower upper =>
    lower ≠ upper ∧ registry.isSubtype lower upper = true
  /-- A name means what the nearest type that defines it says. -/
  resolve_eq_some_iff : ∀ {type name value}, registry.contains type = true →
    (registry.resolve type name = some value ↔ ∃ owner, Nearest registry type name owner ∧
      registry.ownCapability owner name = some value)
  resolve_eq_none_iff : ∀ {type name}, registry.contains type = true →
    (registry.resolve type name = none ↔ ∀ owner, registry.isSubtype type owner = true →
      registry.ownCapability owner name = none)
  isInstance : ∀ {value : Value}, registry.contains value.typeOf = true →
    registry.isInstance value .object = true

theorem Rooted.treeOrder (rooted : Rooted registry) : TreeOrder registry where
  isSubtype_iff := rooted.isSubtype_iff
  refl known := (rooted.isSubtype_iff known).mpr .refl
  antisymm up down := by
    rw [rooted.isSubtype_iff (contains_of_isSubtype up)] at up
    rw [rooted.isSubtype_iff (contains_of_isSubtype down)] at down
    exact rooted.derives_antisymm up down
  trans left right := by
    have known := contains_of_isSubtype left
    rw [rooted.isSubtype_iff known] at left ⊢
    rw [rooted.isSubtype_iff (contains_of_isSubtype right)] at right
    exact .trans left right
  object known := (rooted.isSubtype_iff known).mpr (rooted.derives_object known)
  comparable left right := by
    have known := contains_of_isSubtype left
    rw [rooted.isSubtype_iff known] at left right
    rw [rooted.isSubtype_iff (rooted.contains_of_derives known left),
      rooted.isSubtype_iff (rooted.contains_of_derives known right)]
    exact left.total right
  walk known := by
    obtain ⟨chain, walk, same⟩ := rooted.exists_ancestors known
    exact same ▸ walk
  starts known := by
    obtain ⟨chain, walk, same⟩ := rooted.exists_ancestors known
    rw [same, walk.head?_eq]
  ends := rooted.last_eq_object
  lists := mem_ancestors_iff
  nearestFirst := by
    intro type
    by_cases known : registry.contains type = true
    · obtain ⟨chain, walk, same⟩ := rooted.exists_ancestors known
      rw [same]
      refine List.Pairwise.imp_of_mem ?_ (walk.nodup.and walk.pairwise_derives)
      rintro lower upper member - ⟨apart, above⟩
      have registered := rooted.contains_of_derives known (walk.mem_iff_derives.mp member)
      exact ⟨apart, (rooted.isSubtype_iff registered).mpr above⟩
    · rw [ancestors, if_neg known]
      exact .nil
  resolve_eq_some_iff := rooted.resolve_eq_some_iff
  resolve_eq_none_iff known := by
    simp only [rooted.isSubtype_iff known, rooted.resolve_eq_none_iff known]
  isInstance known := (rooted.isSubtype_iff known).mpr (rooted.derives_object known)

/--
Subtyping is the order of a tree with root `object`, which all walks follow, and
registering more types, below whatever parents, changes no answer about the types
that are there.
-/
theorem subtyping_is_lasting_tree_order (built : Built registry) (later : List (Name × TypeId)) :
    TreeOrder registry ∧ SameAnswers registry (registry.registerAll later) :=
  ⟨built.rooted.treeOrder, built.rooted.sameAnswers (keeps_registerAll registry later)⟩

/-- Two types below a built-in one, of which the upper one defines a name. -/
def decorated : Registry :=
  (orderly.setCapability ⟨25⟩ "m" (.int 1)).setDoc ⟨26⟩ "lower"

theorem subtyping_is_lasting_tree_order_decorated :
    (decorated.registerAll [("C", ⟨26⟩), ("D", ⟨99⟩)]).ancestors ⟨26⟩ =
        [⟨26⟩, ⟨25⟩, .keyError, .lookupError, .exception, .object] ∧
      decorated.isSubtype ⟨26⟩ .object = true ∧
      ∃ owner, Nearest decorated ⟨26⟩ "m" owner := by
  have built : Built decorated :=
    .setDoc (.setCapability (.register (.register .builtin "A" (by decide)) "B" (by decide))
      ⟨25⟩ "m" (.int 1)) ⟨26⟩ "lower"
  obtain ⟨order, same⟩ := subtyping_is_lasting_tree_order built [("C", ⟨26⟩), ("D", ⟨99⟩)]
  have known : decorated.contains ⟨26⟩ = true := by decide
  have resolved : decorated.resolve ⟨26⟩ "m" = some (.int 1) := by rfl
  obtain ⟨owner, nearest, _⟩ := (order.resolve_eq_some_iff known).mp resolved
  refine ⟨?_, order.object known, owner, nearest⟩
  rw [same.ancestors known]
  decide

end ScriptCore.Registry
