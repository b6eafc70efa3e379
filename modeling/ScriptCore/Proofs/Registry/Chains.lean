import Mathlib.Data.Fintype.Card
import Mathlib.Data.Fintype.EquivFin
import ScriptCore.Registry

/-!
# Parent chains

Registering a type does not look at the parent that it names.  The walk from a
type to its parents ends exactly if no type on it is above itself, and a walk
that ends visits no type twice.  It ends for every type whenever parents are
registered before their children.
-/

namespace ScriptCore.Registry

/--
What registering types one after the other makes of the built-in ones, where
each parent that is named is allowed at the time.
-/
inductive Registered (allowed : Registry → TypeId → Prop) : Registry → Prop where
  | builtin : Registered allowed builtin
  | register {registry : Registry} (known : Registered allowed registry) (name : Name)
      {parent : TypeId} (fits : allowed registry parent) :
      Registered allowed (registry.register name parent).2

/-- The second type is the parent of the first. -/
def Parent (registry : Registry) (type parent : TypeId) : Prop :=
  registry.parentOf type = some parent

/-- The second type is the parent of the first, or the parent of that, and so on. -/
def Above (registry : Registry) : TypeId → TypeId → Prop := Relation.TransGen registry.Parent

/-- The walk from a type, without any bound, up to the type that has no parent. -/
inductive Chain (registry : Registry) : TypeId → List TypeId → Prop where
  | last {type : TypeId} (root : registry.parentOf type = none) : Chain registry type [type]
  | step {type parent : TypeId} {rest : List TypeId} (up : registry.Parent type parent)
      (later : Chain registry parent rest) : Chain registry type (type :: rest)

variable {registry : Registry} {type parent other : TypeId} {chain : List TypeId}

theorem parentOf_of_size_le (unknown : registry.size ≤ type.index) :
    registry.parentOf type = none := by
  have absent : registry.get? type = none := List.getElem?_eq_none unknown
  rw [parentOf, absent, Option.bind_none]

theorem Parent.lt_size (up : registry.Parent type parent) : type.index < registry.size := by
  by_contra unknown
  have none := parentOf_of_size_le (Nat.le_of_not_lt unknown)
  rw [Parent, none] at up
  cases up

/-! ## Walks that end -/

namespace Chain

theorem ne_nil (walk : Chain registry type chain) : chain ≠ [] := by
  cases walk <;> exact List.cons_ne_nil _ _

theorem unique {second : List TypeId} (first : Chain registry type chain)
    (again : Chain registry type second) : chain = second := by
  induction first generalizing second with
  | last root =>
      cases again with
      | last _ => rfl
      | step up _ =>
          rw [Parent, root] at up
          cases up
  | step up later ih =>
      cases again with
      | last root =>
          rw [Parent, root] at up
          cases up
      | step same rest =>
          rw [Parent, up] at same
          cases same
          rw [ih rest]

/-- A type on the walk has a walk of its own, which is a part of this one. -/
theorem of_mem (walk : Chain registry type chain) (member : other ∈ chain) :
    ∃ rest, Chain registry other rest ∧ rest.length ≤ chain.length := by
  induction walk with
  | last root =>
      rw [List.mem_singleton] at member
      subst member
      exact ⟨_, .last root, Nat.le_refl _⟩
  | step up later ih =>
      rcases List.mem_cons.mp member with rfl | above
      · exact ⟨_, .step up later, Nat.le_refl _⟩
      · obtain ⟨rest, found, shorter⟩ := ih above
        exact ⟨rest, found, Nat.le_succ_of_le shorter⟩

/-- A type above has a shorter walk. -/
theorem of_above (above : registry.Above type other) (walk : Chain registry type chain) :
    ∃ rest, Chain registry other rest ∧ rest.length < chain.length := by
  induction above with
  | single up =>
      cases walk with
      | last root =>
          rw [Parent, root] at up
          cases up
      | step same later =>
          rw [Parent, same] at up
          cases up
          exact ⟨_, later, Nat.lt_succ_self _⟩
  | tail _ up ih =>
      obtain ⟨rest, found, shorter⟩ := ih
      cases found with
      | last root =>
          rw [Parent, root] at up
          cases up
      | step same later =>
          rw [Parent, same] at up
          cases up
          exact ⟨_, later, Nat.lt_of_succ_lt shorter⟩

theorem not_above_self (walk : Chain registry type chain) : ¬ registry.Above type type := by
  intro above
  obtain ⟨rest, found, shorter⟩ := walk.of_above above
  rw [found.unique walk] at shorter
  exact Nat.lt_irrefl _ shorter

theorem nodup (walk : Chain registry type chain) : chain.Nodup := by
  induction walk with
  | last root => exact List.nodup_singleton _
  | @step type parent rest up later ih =>
      refine List.nodup_cons.mpr ⟨fun again => ?_, ih⟩
      obtain ⟨whole, found, shorter⟩ := later.of_mem again
      rw [found.unique (.step up later), List.length_cons] at shorter
      omega

/-- All types on the walk but the last one are registered. -/
theorem lt_size_of_mem_dropLast (walk : Chain registry type chain)
    (member : other ∈ chain.dropLast) : other.index < registry.size := by
  induction walk with
  | last root => cases member
  | step up later ih =>
      rw [List.dropLast_cons_of_ne_nil later.ne_nil] at member
      rcases List.mem_cons.mp member with rfl | above
      · exact up.lt_size
      · exact ih above

/-- A walk that ends has one step for each registered type at most, and one for its end. -/
theorem length_le (walk : Chain registry type chain) : chain.length ≤ registry.size + 1 := by
  have distinct : (chain.dropLast.map TypeId.index).Nodup := by
    refine (walk.nodup.sublist (List.dropLast_sublist chain)).map ?_
    rintro ⟨first⟩ ⟨second⟩ same
    exact congrArg TypeId.mk same
  have known : chain.dropLast.map TypeId.index ⊆ List.range registry.size := by
    intro index member
    obtain ⟨other, inside, rfl⟩ := List.mem_map.mp member
    exact List.mem_range.mpr (walk.lt_size_of_mem_dropLast inside)
  have bound := (List.subperm_of_subset distinct known).length_le
  rw [List.length_map, List.length_dropLast, List.length_range] at bound
  omega

theorem walk_eq (walk : Chain registry type chain) {steps : Nat} (enough : chain.length ≤ steps) :
    registry.walk steps type = chain := by
  induction walk generalizing steps with
  | last root =>
      cases steps with
      | zero => cases enough
      | succ steps => rw [Registry.walk, root]
  | step up later ih =>
      cases steps with
      | zero => cases enough
      | succ steps =>
          rw [Parent] at up
          rw [Registry.walk, up]
          exact congrArg _ (ih (Nat.le_of_succ_le_succ enough))

/-- The bound on walks cuts none off that ends. -/
theorem ancestors_eq (walk : Chain registry type chain) (known : registry.contains type = true) :
    registry.ancestors type = chain := by
  rw [ancestors, if_pos known, walk.walk_eq walk.length_le]

end Chain

/-! ## When walks end -/

/-- The types on the walk from a type that are registered. -/
abbrev OnWalk (registry : Registry) (type : TypeId) : Type :=
  { other : TypeId //
    Relation.ReflTransGen registry.Parent type other ∧ other.index < registry.size }

instance : Finite (OnWalk registry type) :=
  Finite.of_injective (fun other => (⟨other.1.index, other.2.2⟩ : Fin registry.size)) <| by
    rintro ⟨⟨first⟩, _⟩ ⟨⟨second⟩, _⟩ same
    cases Fin.mk.inj same
    rfl

/-- Without a cycle on the walk, going up is well-founded on it, since it is finite. -/
theorem exists_chain_of_no_cycle
    (free : ∀ other, Relation.ReflTransGen registry.Parent type other →
      ¬ registry.Above other other) :
    ∃ chain, Chain registry type chain := by
  let up (upper lower : OnWalk registry type) : Prop := registry.Above lower.1 upper.1
  have : IsTrans (OnWalk registry type) up := ⟨fun _ _ _ first second => second.trans first⟩
  have : Std.Irrefl up := ⟨fun other => free other.1 other.2.1⟩
  have founded : WellFounded up := Finite.wellFounded_of_trans_of_irrefl up
  have ends (other : OnWalk registry type) : ∃ chain, Chain registry other.1 chain := by
    induction other using founded.induction with
    | _ other ih =>
        cases above : registry.parentOf other.1 with
        | none => exact ⟨_, .last above⟩
        | some parent =>
            have step : registry.Parent other.1 parent := above
            by_cases known : parent.index < registry.size
            · obtain ⟨chain, later⟩ := ih ⟨parent, other.2.1.tail step, known⟩ (.single step)
              exact ⟨_, .step step later⟩
            · exact ⟨_, .step step (.last (parentOf_of_size_le (Nat.le_of_not_lt known)))⟩
  by_cases known : type.index < registry.size
  · exact ends ⟨type, .refl, known⟩
  · exact ⟨_, .last (parentOf_of_size_le (Nat.le_of_not_lt known))⟩

theorem exists_chain_iff :
    (∃ chain, Chain registry type chain) ↔
      ∀ other, Relation.ReflTransGen registry.Parent type other → ¬ registry.Above other other := by
  refine ⟨?_, exists_chain_of_no_cycle⟩
  rintro ⟨chain, walk⟩ other onWalk
  rcases Relation.reflTransGen_iff_eq_or_transGen.mp onWalk with rfl | above
  · exact walk.not_above_self
  · obtain ⟨rest, found, _⟩ := walk.of_above above
    exact found.not_above_self

/-- Where every parent comes before its children or is unknown, all walks go down to their end. -/
theorem exists_chain_of_parents_first
    (ordered : ∀ type parent, registry.Parent type parent →
      parent.index < type.index ∨ registry.size ≤ parent.index) :
    ∃ chain, Chain registry type chain := by
  induction index : type.index using Nat.strong_induction_on generalizing type with
  | _ index ih =>
      cases above : registry.parentOf type with
      | none => exact ⟨_, .last above⟩
      | some parent =>
          rcases ordered type parent above with lower | unknown
          · obtain ⟨chain, later⟩ := ih parent.index (index ▸ lower) rfl
            exact ⟨_, .step above later⟩
          · exact ⟨_, .step above (.last (parentOf_of_size_le unknown))⟩

/-! ## Registering -/

/-- A new type comes last and has the parent that was named; nothing else is different. -/
theorem parentOf_register (registry : Registry) (name : Name) (named type : TypeId) :
    (registry.register name named).2.parentOf type = registry.parentOf type ∨
      type.index = registry.size ∧
        (registry.register name named).2.parentOf type = some named := by
  unfold register
  cases registry.lookup name with
  | some known => exact .inl rfl
  | none =>
      simp only [parentOf, get?, size]
      rcases Nat.lt_trichotomy type.index registry.types.length with old | new | unknown
      · exact .inl (by rw [List.getElem?_append_left old])
      · refine .inr ⟨new, ?_⟩
        rw [List.getElem?_append_right (Nat.le_of_eq new.symm), new, Nat.sub_self]
        rfl
      · refine .inl ?_
        rw [List.getElem?_eq_none (Nat.le_of_lt unknown), List.getElem?_eq_none]
        rw [List.length_append, List.length_singleton]
        exact unknown

theorem Registered.parent_lt
    (registered : Registered (fun registry parent => registry.contains parent = true) registry)
    (up : registry.Parent type parent) : parent.index < type.index := by
  induction registered generalizing type parent with
  | builtin =>
      have all : ∀ index < Registry.builtin.size,
          ∀ parent ∈ Registry.builtin.parentOf ⟨index⟩, parent.index < index := by decide
      exact all type.index up.lt_size parent up
  | @register registry _ name named fits ih =>
      rcases parentOf_register registry name named type with old | ⟨new, same⟩
      · rw [Parent, old] at up
        exact ih up
      · rw [Parent, same] at up
        cases up
        rw [contains, decide_eq_true_eq] at fits
        exact new ▸ fits

/-! ## The end of all walks -/

/--
The walk from a type ends exactly if no type on it is above itself.  A walk that
ends visits no type twice, and questions about a registered type see all of it.
All walks end if no type was registered before its parent.
-/
theorem parent_chain_ends_iff_no_cycle (registry : Registry) (type : TypeId) :
    ((∃ chain, Chain registry type chain) ↔
      ∀ other, Relation.ReflTransGen registry.Parent type other →
        ¬ registry.Above other other) ∧
    (∀ chain, Chain registry type chain →
      chain.Nodup ∧ (registry.contains type = true → registry.ancestors type = chain)) ∧
    (Registered (fun registry parent => registry.contains parent = true) registry →
      ∃ chain, Chain registry type chain) := by
  refine ⟨exists_chain_iff, ?_, ?_⟩
  · intro chain walk
    exact ⟨walk.nodup, walk.ancestors_eq⟩
  · intro registered
    exact exists_chain_of_parents_first fun type parent up => .inl (registered.parent_lt up)

/-- A type below a built-in one, and a type below that. -/
def orderly : Registry :=
  ((builtin.register "A" .keyError).2.register "B" ⟨25⟩).2

theorem parent_chain_ends_iff_no_cycle_orderly :
    orderly.ancestors ⟨26⟩ = [⟨26⟩, ⟨25⟩, .keyError, .lookupError, .exception, .object] ∧
      ∃ chain, Chain orderly ⟨26⟩ chain := by
  obtain ⟨_, complete, ordered⟩ := parent_chain_ends_iff_no_cycle orderly ⟨26⟩
  have ups : orderly.Parent ⟨26⟩ ⟨25⟩ ∧ orderly.Parent ⟨25⟩ .keyError ∧
      orderly.Parent .keyError .lookupError ∧ orderly.Parent .lookupError .exception ∧
      orderly.Parent .exception .object ∧ orderly.parentOf .object = none := by
    unfold Parent
    decide
  obtain ⟨first, second, third, fourth, fifth, root⟩ := ups
  have walk := Chain.step first <| .step second <| .step third <| .step fourth <|
    .step fifth <| .last root
  refine ⟨(complete _ walk).2 (by decide), ordered ?_⟩
  exact .register (.register .builtin "A" (by decide)) "B" (by decide)

/-- A type that was registered with itself as its parent. -/
def selfParent : Registry := (builtin.register "A" ⟨25⟩).2

theorem selfParent_chain_never_ends :
    Registered (fun _ _ => True) selfParent ∧ ¬ ∃ chain, Chain selfParent ⟨25⟩ chain := by
  have up : selfParent.Parent ⟨25⟩ ⟨25⟩ := by
    unfold Parent
    decide
  refine ⟨.register .builtin "A" trivial, ?_⟩
  rintro ⟨chain, walk⟩
  exact walk.not_above_self (.single up)

end ScriptCore.Registry
