import ScriptCore.Proofs.Attributes.Assignment

/-!
# Attributes of classes

A lookup asks the value itself, then the types on the walk from it if it is a
type, and last the types on the walk from its type.  An assignment to a class
changes the lookups that come to this class before any other definition, and
no others.
-/

namespace ScriptCore

namespace Registry

variable {registry before after : Registry} {type : TypeId} {chain : List TypeId}

theorem Chain.of_sameParents (same : SameParents before after)
    (walk : Chain before type chain) : Chain after type chain := by
  induction walk with
  | last root => exact .last ((same.parentOf _).trans root)
  | step up later ih => exact .step (same.parent_iff.mpr up) ih

/-- A name is resolved along the whole walk; a type that is not registered defines nothing. -/
theorem Chain.resolve_eq (walk : Chain registry type chain) (name : Name) :
    registry.resolve type name = chain.findSome? (registry.ownCapability · name) := by
  by_cases known : registry.contains type = true
  · rw [resolve, walk.ancestors_eq known]
  · have absent := get?_eq_none_iff.mpr (Bool.eq_false_of_not_eq_true known)
    have root : registry.parentOf type = none := by rw [parentOf, absent, Option.bind_none]
    have single : chain = [type] := walk.unique (.last root)
    have undefined : registry.ownCapability type name = none := by
      rw [ownCapability, absent, Option.bind_none]
    rw [resolve, ancestors, if_neg known, single, List.findSome?_nil, List.findSome?_cons,
      undefined, List.findSome?_nil]

end Registry

namespace World

/-! ## The types that a lookup asks -/

/-- The names of attributes that lookups treat in a way of their own. -/
def reservedNames : List Name := ["__name__", "__base__", "__doc__", "__class__"]

/--
The types that a lookup on a value asks: those on the walk from the value if it is
a type, and then those on the walk from the type of the value.
-/
structure Stages (types : Registry) (value : Value) (own inherited : List TypeId) : Prop where
  own : match value.asType with
    | some type => Registry.Chain types type own
    | none => own = []
  inherited : Registry.Chain types value.typeOf inherited

/-- What a lookup finds: an attribute of the value, a definition, or one bound to the value. -/
def foundAlong (receiver : Value) (attached : Option Value) (definition : TypeId → Option Value)
    (own inherited : List TypeId) : Option Value :=
  attached.or ((own.findSome? definition).or
    ((inherited.findSome? definition).map (bindTo receiver)))

variable {world after : World} {owner : TypeId} {name : Name} {value receiver : Value}
  {own inherited : List TypeId}

theorem exists_stages {types : Registry}
    (ordered : ∀ type parent, types.Parent type parent → parent.index < type.index)
    (receiver : Value) : ∃ own inherited, Stages types receiver own inherited := by
  have walks (type : TypeId) : ∃ chain, Registry.Chain types type chain :=
    Registry.exists_chain_of_parents_first fun type parent up => .inl (ordered type parent up)
  obtain ⟨inherited, walk⟩ := walks receiver.typeOf
  cases used : receiver.asType with
  | none => exact ⟨[], inherited, by rw [used], walk⟩
  | some type =>
      obtain ⟨own, above⟩ := walks type
      exact ⟨own, inherited, by rw [used]; exact above, walk⟩

theorem Stages.of_sameParents {before after : Registry}
    (same : Registry.SameParents before after) (stages : Stages before receiver own inherited) :
    Stages after receiver own inherited where
  own := by
    have walk := stages.own
    cases used : receiver.asType with
    | none =>
        rw [used] at walk
        exact walk
    | some type =>
        rw [used] at walk
        exact Registry.Chain.of_sameParents same walk
  inherited := stages.inherited.of_sameParents same

/-- A lookup of an ordinary name asks its types in order. -/
theorem Stages.lookupAttribute_eq (stages : Stages world.types receiver own inherited)
    (ordinary : name ∉ reservedNames) :
    world.lookupAttribute receiver name =
      foundAlong receiver (world.ownAttribute receiver name) (world.types.ownCapability · name) own
        inherited := by
  simp only [reservedNames, List.mem_cons, List.not_mem_nil, or_false, not_or] at ordinary
  obtain ⟨notName, notBase, notDoc, notClass⟩ := ordinary
  have last : world.inheritedAttribute receiver name =
      (inherited.findSome? (world.types.ownCapability · name)).map (bindTo receiver) := by
    rw [inheritedAttribute, if_neg notClass, stages.inherited.resolve_eq]
  have first : receiver.asType.bind (world.typeAttribute · name) =
      own.findSome? (world.types.ownCapability · name) := by
    have walk := stages.own
    cases used : receiver.asType with
    | none =>
        rw [used] at walk
        rw [walk, Option.bind_none, List.findSome?_nil]
    | some type =>
        rw [used] at walk
        rw [Option.bind_some, typeAttribute_eq_resolve _ _ notDoc notName notBase,
          walk.resolve_eq]
  rw [lookupAttribute, first, last, foundAlong]
  cases world.ownAttribute receiver name with
  | some attached => rfl
  | none =>
      cases own.findSome? (world.types.ownCapability · name) with
      | some definition => rfl
      | none => rfl

/-! ## Replacing one definition -/

/-- What types define for a name once the entry of one of them is replaced. -/
def redefined (types : Registry) (owner : TypeId) (name : Name) (value : Value)
    (type : TypeId) : Option Value :=
  if type = owner then some value else types.ownCapability type name

/-- The owner is asked before any type that defines the name. -/
inductive AskedFirst (types : Registry) (name : Name) (owner : TypeId) : List TypeId → Prop where
  | here (farther : List TypeId) : AskedFirst types name owner (owner :: farther)
  | later {type : TypeId} {rest : List TypeId} (lacks : types.ownCapability type name = none)
      (first : AskedFirst types name owner rest) : AskedFirst types name owner (type :: rest)

section Asking

variable {types : Registry} {asked : List TypeId}

theorem AskedFirst.mem (first : AskedFirst types name owner asked) : owner ∈ asked := by
  induction first with
  | here farther => exact List.mem_cons_self
  | later _ _ ih => exact List.mem_cons_of_mem _ ih

theorem askedFirst_of_mem (lacking : ∀ type ∈ asked, types.ownCapability type name = none)
    (member : owner ∈ asked) : AskedFirst types name owner asked := by
  induction asked with
  | nil => cases member
  | cons type rest ih =>
      rcases List.mem_cons.mp member with rfl | later
      · exact .here rest
      · exact .later (lacking type List.mem_cons_self)
          (ih (fun other inside => lacking other (List.mem_cons_of_mem _ inside)) later)

theorem askedFirst_append_iff :
    AskedFirst types name owner (own ++ inherited) ↔
      AskedFirst types name owner own ∨
        (∀ type ∈ own, types.ownCapability type name = none) ∧
          AskedFirst types name owner inherited := by
  induction own with
  | nil =>
      constructor
      · exact fun first => .inr ⟨nofun, first⟩
      · rintro (first | ⟨_, first⟩)
        · cases first
        · exact first
  | cons type rest ih =>
      constructor
      · intro first
        cases first with
        | here _ => exact .inl (.here rest)
        | later lacks first =>
            rcases ih.mp first with early | ⟨lacking, late⟩
            · exact .inl (.later lacks early)
            · exact .inr ⟨List.forall_mem_cons.mpr ⟨lacks, lacking⟩, late⟩
      · rintro (first | ⟨lacking, late⟩)
        · cases first with
          | here _ => exact .here _
          | later lacks early => exact .later lacks (ih.mpr (.inl early))
        · obtain ⟨lacks, others⟩ := List.forall_mem_cons.mp lacking
          exact .later lacks (ih.mpr (.inr ⟨others, late⟩))

theorem AskedFirst.findSome?_redefined (first : AskedFirst types name owner asked) :
    asked.findSome? (redefined types owner name value) = some value := by
  induction first with
  | here farther => rw [List.findSome?_cons, redefined, if_pos rfl]
  | @later type rest lacks _ ih =>
      rw [List.findSome?_cons, redefined]
      by_cases same : type = owner
      · rw [if_pos same]
      · rw [if_neg same, lacks]
        exact ih

/-- Types that are asked after a definition was found do not matter. -/
theorem findSome?_redefined_of_not (notFirst : ¬ AskedFirst types name owner asked) :
    asked.findSome? (redefined types owner name value) =
      asked.findSome? (types.ownCapability · name) := by
  induction asked with
  | nil => rfl
  | cons type rest ih =>
      have different : type ≠ owner := by
        rintro rfl
        exact notFirst (.here rest)
      rw [List.findSome?_cons, List.findSome?_cons, redefined, if_neg different]
      cases own : types.ownCapability type name with
      | some definition => rfl
      | none => exact ih fun first => notFirst (.later own first)

theorem foundAlong_redefined (first : AskedFirst types name owner (own ++ inherited)) :
    foundAlong receiver none (redefined types owner name value) own inherited =
      some (if owner ∈ own then value else bindTo receiver value) := by
  by_cases member : owner ∈ own
  · have early : AskedFirst types name owner own := by
      rcases askedFirst_append_iff.mp first with early | ⟨lacking, _⟩
      · exact early
      · exact askedFirst_of_mem lacking member
    rw [foundAlong, early.findSome?_redefined, if_pos member]
    rfl
  · rcases askedFirst_append_iff.mp first with early | ⟨lacking, late⟩
    · exact absurd early.mem member
    · have undefined : own.findSome? (redefined types owner name value) = none := by
        refine List.findSome?_eq_none_iff.mpr fun type inside => ?_
        have different : type ≠ owner := fun same => member (same ▸ inside)
        rw [redefined, if_neg different, lacking type inside]
      rw [foundAlong, undefined, late.findSome?_redefined, if_neg member]
      rfl

theorem foundAlong_redefined_of_not {attached : Option Value}
    (unreached : attached = none → ¬ AskedFirst types name owner (own ++ inherited)) :
    foundAlong receiver attached (redefined types owner name value) own inherited =
      foundAlong receiver attached (types.ownCapability · name) own inherited := by
  cases attached with
  | some found => rfl
  | none =>
      have notFirst := unreached rfl
      rw [askedFirst_append_iff, not_or] at notFirst
      rw [foundAlong, foundAlong, findSome?_redefined_of_not notFirst.1]
      cases defined : own.findSome? (types.ownCapability · name) with
      | some definition => rfl
      | none =>
          have lacking := List.findSome?_eq_none_iff.mp defined
          rw [findSome?_redefined_of_not fun late => notFirst.2 ⟨lacking, late⟩]

end Asking

/-! ## Assigning to a class -/

theorem setAttribute_of_ordinary (world : World) (owner : TypeId) (value : Value)
    (ordinary : name ∉ reservedNames) :
    world.setAttribute (.type owner) name value =
      .ok { world with types := world.types.setCapability owner name value } := by
  simp only [reservedNames, List.mem_cons, List.not_mem_nil, or_false, not_or] at ordinary
  obtain ⟨notName, notBase, notDoc, _⟩ := ordinary
  change world.setTypeAttribute owner name value = _
  unfold setTypeAttribute
  split
  · exact absurd rfl notDoc
  · exact absurd rfl notName
  · exact absurd rfl notBase
  · rfl

/-- Nothing is different but that a class defines a name anew. -/
structure Redefines (owner : TypeId) (name : Name) (value : Value) (before after : World) :
    Prop where
  /-- A lookup of the name goes as before, with this definition in place of the old one. -/
  finds : ∀ {receiver own inherited}, Stages before.types receiver own inherited →
    after.lookupAttribute receiver name =
      foundAlong receiver (before.ownAttribute receiver name)
        (redefined before.types owner name value) own inherited
  /-- Whoever comes to the class first finds the value, bound if it is not from the own walk. -/
  reached : ∀ {receiver own inherited}, Stages before.types receiver own inherited →
    before.ownAttribute receiver name = none →
    AskedFirst before.types name owner (own ++ inherited) →
    after.lookupAttribute receiver name =
      some (if owner ∈ own then value else bindTo receiver value)
  /-- Whoever has the attribute or comes to another definition first finds what was there. -/
  unreached : ∀ {receiver own inherited}, Stages before.types receiver own inherited →
    (before.ownAttribute receiver name = none →
      ¬ AskedFirst before.types name owner (own ++ inherited)) →
    after.lookupAttribute receiver name = before.lookupAttribute receiver name
  otherNames : ∀ receiver other, other ≠ name →
    after.lookupAttribute receiver other = before.lookupAttribute receiver other

theorem resolve_setCapability_of_ne (types : Registry) (owner type : TypeId) {other : Name}
    (different : other ≠ name) :
    (types.setCapability owner name value).resolve type other = types.resolve type other := by
  have same : ((types.setCapability owner name value).ownCapability · other) =
      (types.ownCapability · other) := by
    funext asked
    rw [Registry.ownCapability_setCapability, if_neg fun all => different all.2.1.symm]
  rw [Registry.resolve, Registry.resolve, same,
    (Registry.sameParents_setCapability types owner name value).ancestors]

/-- Names, parents and texts of types are not definitions, so every other lookup is as before. -/
theorem lookupAttribute_setCapability_of_ne (world : World) (owner : TypeId)
    (receiver : Value) {other : Name} (different : other ≠ name) :
    { world with types := world.types.setCapability owner name value }.lookupAttribute receiver
        other = world.lookupAttribute receiver other := by
  have parents := Registry.sameParents_setCapability world.types owner name value
  have typed (type : TypeId) :
      { world with types := world.types.setCapability owner name value }.typeAttribute type
        other = world.typeAttribute type other := by
    simp only [typeAttribute, Registry.typeName, Registry.nameOf_setCapability, parents.parentOf,
      Registry.docOf_setCapability, resolve_setCapability_of_ne _ _ _ different]
  have last :
      { world with types := world.types.setCapability owner name value }.inheritedAttribute
        receiver other = world.inheritedAttribute receiver other := by
    simp only [inheritedAttribute, resolve_setCapability_of_ne _ _ _ different]
  simp only [lookupAttribute, typed, last]
  rfl

theorem redefines_setCapability (world : World) (known : world.types.contains owner = true)
    (ordinary : name ∉ reservedNames) :
    Redefines owner name value world
      { world with types := world.types.setCapability owner name value } := by
  have parents := Registry.sameParents_setCapability world.types owner name value
  have definitions : ((world.types.setCapability owner name value).ownCapability · name) =
      redefined world.types owner name value := by
    funext type
    rw [Registry.ownCapability_setCapability, redefined]
    by_cases same : type = owner
    · rw [if_pos same, if_pos ⟨same.symm, rfl, same ▸ known⟩]
    · rw [if_neg same, if_neg fun all => same all.1.symm]
  have finds {receiver : Value} {own inherited : List TypeId}
      (stages : Stages world.types receiver own inherited) :
      { world with types := world.types.setCapability owner name value }.lookupAttribute
          receiver name =
        foundAlong receiver (world.ownAttribute receiver name)
          (redefined world.types owner name value) own inherited := by
    rw [(stages.of_sameParents parents).lookupAttribute_eq ordinary, definitions]
    rfl
  refine ⟨finds, ?_, ?_, ?_⟩
  · intro receiver own inherited stages unattached first
    rw [finds stages, unattached, foundAlong_redefined first]
  · intro receiver own inherited stages unreached
    rw [finds stages, foundAlong_redefined_of_not unreached, stages.lookupAttribute_eq ordinary]
  · intro receiver other different
    exact lookupAttribute_setCapability_of_ne world owner receiver different

/--
Assigning an attribute to a registered class is accepted and changes the lookups
that come to this class before any other definition, in the way the new value
says, and no others.
-/
theorem class_assignment_shows_where_inherited {world : World}
    (ordered : ∀ type parent, world.types.Parent type parent → parent.index < type.index)
    {owner : TypeId} (known : world.types.contains owner = true) {name : Name}
    (ordinary : name ∉ reservedNames) (value : Value) :
    ∃ after, world.setAttribute (.type owner) name value = .ok after ∧
      Redefines owner name value world after ∧
      ∀ receiver, ∃ own inherited, Stages world.types receiver own inherited :=
  ⟨_, setAttribute_of_ordinary world owner value ordinary,
    redefines_setCapability world known ordinary, exists_stages ordered⟩

/-- A world with two classes below `KeyError`, the upper one of which defines a name. -/
def overriding : World :=
  { World.bare with types := Registry.orderly.setCapability ⟨25⟩ "m" (.int 1) }

theorem overriding_ordered (type parent : TypeId) (up : overriding.types.Parent type parent) :
    parent.index < type.index := by
  have registered : Registry.Registered (fun registry parent => registry.contains parent = true)
      Registry.orderly :=
    .register (.register .builtin "A" (by decide)) "B" (by decide)
  exact registered.parent_lt
    ((Registry.sameParents_setCapability _ ⟨25⟩ "m" (.int 1)).parent_iff.mp up)

theorem class_assignment_shows_where_inherited_overriding :
    ∃ after, overriding.setAttribute (.type .lookupError) "m" (.function ⟨0⟩) = .ok after ∧
      after.lookupAttribute (.type .keyError) "m" = some (.function ⟨0⟩) ∧
      after.lookupAttribute (.object ⟨7⟩ .keyError) "m" =
        some (.boundMethod (.object ⟨7⟩ .keyError) (.function ⟨0⟩)) ∧
      after.lookupAttribute (.object ⟨7⟩ ⟨25⟩) "m" = some (.int 1) := by
  have known : overriding.types.contains .lookupError = true := by decide
  have ordinary : "m" ∉ reservedNames := by decide
  obtain ⟨after, accepted, redefines, _⟩ :=
    class_assignment_shows_where_inherited overriding_ordered known ordinary (.function ⟨0⟩)
  have top : Registry.Chain overriding.types .lookupError [.lookupError, .exception, .object] :=
    .step rfl <| .step rfl <| .last rfl
  have typeWalk : Registry.Chain overriding.types .type [.type, .object] :=
    .step rfl <| .last rfl
  refine ⟨after, accepted, ?_, ?_, ?_⟩
  · have stages : Stages overriding.types (.type .keyError) _ _ := ⟨.step rfl top, typeWalk⟩
    rw [redefines.reached stages rfl (.later rfl (.here _)), if_pos (by decide)]
  · have stages : Stages overriding.types (.object ⟨7⟩ .keyError) [] _ := ⟨rfl, .step rfl top⟩
    rw [redefines.reached stages rfl (.later rfl (.here _)), if_neg (by decide)]
    rfl
  · have stages : Stages overriding.types (.object ⟨7⟩ ⟨25⟩) [] _ :=
      ⟨rfl, .step rfl (.step rfl top)⟩
    rw [redefines.unreached stages]
    · rfl
    · rintro - first
      cases first with
      | later lacks _ => cases lacks

end World

end ScriptCore
