import ScriptCore.Machine
import ScriptCore.Proofs.Registry.Changes

/-!
# Requests that change types

A world is asked to register types, to define classes, and to change what types
define and how they are documented.  None of this moves a type: names and
parents form a row that only grows, by one entry for each name that is new.
-/

namespace ScriptCore

/-! ## Requests -/

/-- A request that may change the types of a world. -/
inductive TypeRequest where
  | register (name : Name) (parent : TypeId)
  | defineClass (name : Name) (parent : Option TypeId) (members : List (Name × Value))
  | setCapability (type : TypeId) (name : Name) (value : Value)
  | eraseCapability (type : TypeId) (name : Name)
  | setDoc (type : TypeId) (doc : String)

/-- The name and the parent of the type that is asked for, if one is. -/
def TypeRequest.asked? : TypeRequest → Option (Name × TypeId)
  | register name parent => some (name, parent)
  | defineClass name parent _ => some (name, parent.getD .object)
  | _ => none

/-- Do what is requested; the reply to a registration is the type. -/
def World.answer (world : World) : TypeRequest → Option TypeId × World
  | .register name parent =>
      let (type, types) := world.types.register name parent
      (some type, { world with types })
  | .defineClass name parent members =>
      let (type, world) := world.defineClass name parent members
      (some type, world)
  | .setCapability type name value =>
      (none, { world with types := world.types.setCapability type name value })
  | .eraseCapability type name =>
      (none, { world with types := world.types.eraseCapability type name })
  | .setDoc type doc => (none, { world with types := world.types.setDoc type doc })

/-- The replies to requests made one after the other, and the world they leave. -/
def World.answerAll (world : World) : List TypeRequest → List (Option TypeId) × World
  | [] => ([], world)
  | request :: later =>
      let (reply, world) := world.answer request
      let (replies, world) := world.answerAll later
      (reply :: replies, world)

namespace Registry

/-! ## The row of names and parents -/

/-- Name and parent of every type, in the order of their numbers. -/
def row (registry : Registry) : List (Name × Option TypeId) :=
  registry.types.map fun info => (info.name, info.parent)

/-- The registered names, in the order of their numbers. -/
def names (registry : Registry) : List Name := registry.row.map (·.1)

variable {registry before after : Registry} {type other parent : TypeId} {name : Name}

theorem length_row (registry : Registry) : registry.row.length = registry.size :=
  List.length_map _

theorem nameOf_eq (registry : Registry) (type : TypeId) :
    registry.nameOf type = registry.names[type.index]? := by
  rw [names, row, List.getElem?_map, List.getElem?_map, Option.map_map]
  rfl

theorem nameOf_eq_row (registry : Registry) (type : TypeId) :
    registry.nameOf type = registry.row[type.index]?.map (·.1) := by
  rw [nameOf_eq, names, List.getElem?_map]

theorem parentOf_eq (registry : Registry) (type : TypeId) :
    registry.parentOf type = registry.row[type.index]?.bind (·.2) := by
  rw [row, List.getElem?_map, Option.bind_map]
  rfl

theorem lookup_eq (registry : Registry) (name : Name) :
    registry.lookup name = (registry.names.findIdx? (· = name)).map TypeId.mk := by
  rw [names, row, List.findIdx?_map, List.findIdx?_map]
  rfl

theorem lookup_eq_none_iff : registry.lookup name = none ↔ name ∉ registry.names := by
  rw [lookup_eq, Option.map_eq_none_iff, List.findIdx?_eq_none_iff]
  constructor
  · intro other member
    exact of_decide_eq_false (other name member) rfl
  · intro absent other member
    exact decide_eq_false fun same => absent (same ▸ member)

theorem contains_iff_exists_name :
    registry.contains type = true ↔ ∃ name, registry.nameOf type = some name := by
  have length : registry.names.length = registry.size :=
    (List.length_map _).trans registry.length_row
  rw [contains_iff, nameOf_eq, ← length, ← Option.isSome_iff_exists]
  simp

/-- Where names are distinct, lookup and name are inverse to each other. -/
theorem lookup_eq_some_iff (distinct : registry.names.Nodup) :
    registry.lookup name = some type ↔ registry.nameOf type = some name := by
  rw [lookup_eq, nameOf_eq, Option.map_eq_some_iff, List.getElem?_eq_some_iff]
  constructor
  · rintro ⟨place, found, rfl⟩
    obtain ⟨inside, same, _⟩ := List.findIdx?_eq_some_iff_getElem.mp found
    exact ⟨inside, of_decide_eq_true same⟩
  · rintro ⟨inside, same⟩
    refine ⟨type.index, List.findIdx?_eq_some_iff_getElem.mpr ⟨inside, ?_, ?_⟩, rfl⟩
    · exact decide_eq_true same
    · intro place earlier again
      have both := (of_decide_eq_true again).trans same.symm
      exact Nat.ne_of_lt earlier (distinct.getElem_inj_iff.mp both)

/-! ## What a request changes -/

theorem row_modify (registry : Registry) (type : TypeId) {change : TypeInfo → TypeInfo}
    (name : ∀ info, (change info).name = info.name)
    (parent : ∀ info, (change info).parent = info.parent) :
    (registry.modify type change).row = registry.row := by
  apply List.ext_getElem?
  intro place
  rw [row, row, List.getElem?_map, List.getElem?_map, modify, List.getElem?_modify,
    Option.map_eq_map, Option.map_map]
  refine congrArg (fun part => registry.types[place]?.map part) (funext fun info => ?_)
  by_cases here : type.index = place
  · simp only [Function.comp, if_pos here, name, parent]
  · simp only [Function.comp, if_neg here]

/-- Nothing but capabilities and documentation of one type is different. -/
structure Decorates (type : TypeId) (before after : Registry) : Prop where
  row : after.row = before.row
  others : ∀ other, other ≠ type → after.get? other = before.get? other

namespace Decorates

variable {middle : Registry}

theorem refl (type : TypeId) (registry : Registry) : Decorates type registry registry :=
  ⟨rfl, fun _ _ => rfl⟩

theorem trans (early : Decorates type before middle) (late : Decorates type middle after) :
    Decorates type before after :=
  ⟨late.row.trans early.row, fun other apart =>
    (late.others other apart).trans (early.others other apart)⟩

theorem modify (registry : Registry) (type : TypeId) {change : TypeInfo → TypeInfo}
    (name : ∀ info, (change info).name = info.name)
    (parent : ∀ info, (change info).parent = info.parent) :
    Decorates type registry (registry.modify type change) where
  row := row_modify registry type name parent
  others other apart := by rw [get?_modify, if_neg apart.symm]

theorem names (decorates : Decorates type before after) : after.names = before.names := by
  rw [Registry.names, decorates.row, Registry.names]

theorem size (decorates : Decorates type before after) : after.size = before.size := by
  rw [← length_row, decorates.row, length_row]

theorem lookup (decorates : Decorates type before after) (name : Name) :
    after.lookup name = before.lookup name := by
  rw [lookup_eq, decorates.names, lookup_eq]

end Decorates

theorem decorates_setCapability (registry : Registry) (type : TypeId) (name : Name)
    (value : Value) : Decorates type registry (registry.setCapability type name value) :=
  .modify registry type (fun _ => rfl) fun _ => rfl

theorem decorates_eraseCapability (registry : Registry) (type : TypeId) (name : Name) :
    Decorates type registry (registry.eraseCapability type name) :=
  .modify registry type (fun _ => rfl) fun _ => rfl

theorem decorates_setDoc (registry : Registry) (type : TypeId) (doc : String) :
    Decorates type registry (registry.setDoc type doc) :=
  .modify registry type (fun _ => rfl) fun _ => rfl

theorem register_of_lookup (known : registry.lookup name = some type) (parent : TypeId) :
    registry.register name parent = (type, registry) := by
  rw [register, known]

theorem register_of_new (new : registry.lookup name = none) (parent : TypeId) :
    registry.register name parent =
      (⟨registry.size⟩, ⟨registry.types ++ [{ name, parent := some parent }]⟩) := by
  rw [register, new]

end Registry

namespace World

variable {world : World} {request : TypeRequest} {name : Name} {parent : TypeId}

theorem decorates_addMember (world : World) (type : TypeId) (name : Name) (value : Value) :
    Registry.Decorates type world.types (world.addMember type name value).types := by
  unfold addMember
  split
  · exact Registry.decorates_setDoc _ _ _
  · exact Registry.decorates_setCapability _ _ _ _

theorem decorates_addMembers (world : World) (type : TypeId) (members : List (Name × Value)) :
    Registry.Decorates type world.types
      (members.foldl (fun current member => current.addMember type member.1 member.2)
        world).types := by
  induction members generalizing world with
  | nil => exact .refl type world.types
  | cons member rest ih => exact (world.decorates_addMember type _ _).trans (ih _)

/-- A request for a type registers it, and may decorate it after that. -/
theorem answer_of_asked (world : World) (asked : request.asked? = some (name, parent)) :
    (world.answer request).1 = some (world.types.register name parent).1 ∧
      Registry.Decorates (world.types.register name parent).1
        (world.types.register name parent).2 (world.answer request).2.types := by
  cases request with
  | register name parent =>
      cases asked
      exact ⟨rfl, .refl _ _⟩
  | defineClass name parent members =>
      cases asked
      exact ⟨rfl, decorates_addMembers { world with types := _ } _ members⟩
  | setCapability | eraseCapability | setDoc => cases asked

/-- A request that asks for no type decorates one. -/
theorem answer_of_not_asked (world : World) (silent : request.asked? = none) :
    ∃ type, Registry.Decorates type world.types (world.answer request).2.types := by
  cases request with
  | register | defineClass => cases silent
  | setCapability type name value => exact ⟨type, Registry.decorates_setCapability _ _ _ _⟩
  | eraseCapability type name => exact ⟨type, Registry.decorates_eraseCapability _ _ _⟩
  | setDoc type doc => exact ⟨type, Registry.decorates_setDoc _ _ _⟩

end World

/-! ## The types that a history adds -/

namespace Registry

/-- The types that are new: each name that is not known yet, with the parent it first comes with. -/
def newTypes (known : List Name) : List (Name × TypeId) → List (Name × Option TypeId)
  | [] => []
  | (name, parent) :: rest =>
      if name ∈ known then newTypes known rest
      else (name, some parent) :: newTypes (known ++ [name]) rest

theorem newTypes_append (known : List Name) (first second : List (Name × TypeId)) :
    newTypes known (first ++ second) =
      newTypes known first ++ newTypes (known ++ (newTypes known first).map (·.1)) second := by
  induction first generalizing known with
  | nil => simp [newTypes]
  | cons entry rest ih =>
      obtain ⟨name, parent⟩ := entry
      by_cases old : name ∈ known
      · simp only [List.cons_append, newTypes, if_pos old, ih]
      · simp only [List.cons_append, newTypes, if_neg old, ih, List.map_cons, List.append_assoc,
          List.nil_append]

/-- No name is known twice. -/
theorem nodup_newTypes {known : List Name} (distinct : known.Nodup)
    (asked : List (Name × TypeId)) : (known ++ (newTypes known asked).map (·.1)).Nodup := by
  induction asked generalizing known with
  | nil => rwa [newTypes, List.map_nil, List.append_nil]
  | cons entry rest ih =>
      obtain ⟨name, parent⟩ := entry
      by_cases old : name ∈ known
      · rw [newTypes, if_pos old]
        exact ih distinct
      · have more : (known ++ [name]).Nodup := by
          refine List.nodup_append.mpr ⟨distinct, List.nodup_singleton _, ?_⟩
          intro first member second last same
          rw [List.mem_singleton] at last
          exact old (last ▸ same ▸ member)
        rw [newTypes, if_neg old, List.map_cons, List.append_cons]
        exact ih more

theorem mem_newTypes {known : List Name} {asked : List (Name × TypeId)} {name : Name} :
    name ∈ known ++ (newTypes known asked).map (·.1) ↔
      name ∈ known ∨ name ∈ asked.map (·.1) := by
  induction asked generalizing known with
  | nil => simp [newTypes]
  | cons entry rest ih =>
      obtain ⟨first, parent⟩ := entry
      by_cases old : first ∈ known
      · rw [newTypes, if_pos old, ih, List.map_cons, List.mem_cons]
        constructor
        · rintro (before | later)
          · exact .inl before
          · exact .inr (.inr later)
        · rintro (before | rfl | later)
          · exact .inl before
          · exact .inl old
          · exact .inr later
      · rw [newTypes, if_neg old, List.map_cons, List.append_cons, ih, List.mem_append,
          List.mem_singleton, List.map_cons, List.mem_cons, or_assoc]

theorem row_register (registry : Registry) (name : Name) (parent : TypeId) :
    (registry.register name parent).2.row =
      registry.row ++ newTypes registry.names [(name, parent)] := by
  cases found : registry.lookup name with
  | some known =>
      have member : name ∈ registry.names := by
        by_contra absent
        rw [lookup_eq_none_iff.mpr absent] at found
        cases found
      rw [register_of_lookup found, newTypes, if_pos member, newTypes, List.append_nil]
  | none =>
      rw [register_of_new found, newTypes, if_neg (lookup_eq_none_iff.mp found), newTypes]
      exact List.map_append

theorem names_eq_append {registry : Registry} {row added : List (Name × Option TypeId)}
    (same : registry.row = row ++ added) : registry.names = row.map (·.1) ++ added.map (·.1) := by
  rw [names, same, List.map_append]

end Registry

/-- The types that are asked for in a history, in the order of the requests. -/
def TypeRequest.allAsked (history : List TypeRequest) : List (Name × TypeId) :=
  history.filterMap asked?

namespace World

variable {world : World} {request : TypeRequest} {name : Name} {parent : TypeId}

theorem row_answer (world : World) (request : TypeRequest) :
    (world.answer request).2.types.row =
      world.types.row ++ Registry.newTypes world.types.names request.asked?.toList := by
  cases asked : request.asked? with
  | none =>
      obtain ⟨type, decorates⟩ := world.answer_of_not_asked asked
      rw [decorates.row, Option.toList_none, Registry.newTypes, List.append_nil]
  | some entry =>
      rw [(world.answer_of_asked asked).2.row, Registry.row_register, Option.toList_some]

/-- What a history makes of the types: those that were there, and then the new ones. -/
theorem row_answerAll (world : World) (history : List TypeRequest) :
    (world.answerAll history).2.types.row =
      world.types.row ++ Registry.newTypes world.types.names (TypeRequest.allAsked history) := by
  induction history generalizing world with
  | nil => exact (List.append_nil _).symm
  | cons request later ih =>
      have step := world.row_answer request
      have asked : TypeRequest.allAsked (request :: later) =
          request.asked?.toList ++ TypeRequest.allAsked later := by
        rw [TypeRequest.allAsked, List.filterMap_cons]
        cases request.asked? <;> rfl
      rw [answerAll, ih, step, Registry.names_eq_append step, asked, Registry.newTypes_append,
        List.append_assoc]
      rfl

/-- The types of a world stand in every later one with their names and parents. -/
theorem row_prefix_answerAll (world : World) (later : List TypeRequest) :
    world.types.row <+: (world.answerAll later).2.types.row := by
  rw [row_answerAll]
  exact List.prefix_append _ _

theorem size_le_answerAll (world : World) (later : List TypeRequest) :
    world.types.size ≤ (world.answerAll later).2.types.size := by
  rw [← Registry.length_row, ← Registry.length_row]
  exact (world.row_prefix_answerAll later).length_le

end World

end ScriptCore
