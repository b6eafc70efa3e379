import ScriptCore.Proofs.Registry.Requests

/-!
# The identity of types

A type gets its number, its name and its parent when it is registered, and keeps
them whatever is requested later.  Names and numbers correspond, and the types
that requests add are numbered from the first one that is not built in.

A registry can also be kept as two tables, a finite map from names to numbers
beside the row of types.  The two tables stay inverse to each other, and every
request has the reply that the row alone gives.
-/

namespace ScriptCore

/-! ## Two tables -/

/-- A world with a finite map from names to types, in which all names are looked up. -/
structure Indexed where
  world : World
  byName : Table Name TypeId

namespace Indexed

/-- The number of types that have different numbers of 32 bits. -/
def capacity : Nat := 4294967296

/-- Add a type at the end of the row and to the map. -/
def push (indexed : Indexed) (name : Name) (parent : Option TypeId) : TypeId × Indexed :=
  let type : TypeId := ⟨indexed.world.types.size % capacity⟩
  let types : List TypeInfo := indexed.world.types.types ++ [{ name, parent := parent }]
  (type, ⟨{ indexed.world with types := ⟨types⟩ }, indexed.byName.set name type⟩)

/-- Add a type for each of the built-in ones to a world without types. -/
def start (world : World) : Indexed :=
  TypeId.builtins.foldl (fun indexed entry => (indexed.push entry.2.1 entry.2.2).2)
    ⟨{ world with types := ⟨[]⟩ }, ∅⟩

/-- The type in the map, or else a new one in both tables. -/
def register (indexed : Indexed) (name : Name) (parent : TypeId) : TypeId × Indexed :=
  match indexed.byName.get? name with
  | some known => (known, indexed)
  | none => indexed.push name (some parent)

/-- Do what is requested; capabilities and documentation are in the row alone. -/
def answer (indexed : Indexed) : TypeRequest → Option TypeId × Indexed
  | .register name parent =>
      let (type, indexed) := indexed.register name parent
      (some type, indexed)
  | .defineClass name parent members =>
      let (type, indexed) := indexed.register name (parent.getD .object)
      let world := members.foldl (fun current member => current.addMember type member.1 member.2)
        indexed.world
      (some type, { indexed with world })
  | request => ((indexed.world.answer request).1,
      { indexed with world := (indexed.world.answer request).2 })

def answerAll (indexed : Indexed) : List TypeRequest → List (Option TypeId) × Indexed
  | [] => ([], indexed)
  | request :: later =>
      let (reply, indexed) := indexed.answer request
      let (replies, indexed) := indexed.answerAll later
      (reply :: replies, indexed)

/-- The row is that of the world, and the map is its inverse. -/
structure Represents (indexed : Indexed) (world : World) : Prop where
  row : indexed.world = world
  byName : ∀ name, indexed.byName.get? name = world.types.lookup name

variable {indexed : Indexed} {world : World} {name : Name}

/-- A new name is the last one, and all others have the types they had. -/
theorem lookup_append {registry : Registry} {info : TypeInfo}
    (new : registry.lookup info.name = none) (name : Name) :
    Registry.lookup ⟨registry.types ++ [info]⟩ name =
      if info.name = name then some ⟨registry.size⟩ else registry.lookup name := by
  rw [Registry.lookup, List.findIdx?_append]
  by_cases same : info.name = name
  · subst same
    rw [Registry.lookup, Option.map_eq_none_iff] at new
    simp [new, Registry.size]
  · simp [same, Registry.lookup]

theorem Represents.push (represents : indexed.Represents world)
    (new : world.types.lookup name = none) (parent : Option TypeId)
    (room : world.types.size < capacity) :
    (indexed.push name parent).1 = ⟨world.types.size⟩ ∧
      (indexed.push name parent).2.Represents
        { world with types := ⟨world.types.types ++ [{ name, parent := parent }]⟩ } := by
  obtain ⟨rfl, byName⟩ := represents
  have number : indexed.world.types.size % capacity = indexed.world.types.size :=
    Nat.mod_eq_of_lt room
  refine ⟨congrArg TypeId.mk number, rfl, fun asked => ?_⟩
  rw [lookup_append new, Indexed.push, Table.get?_set, number, byName]

/-- Built-in types with names of their own are added one after the other. -/
theorem Represents.foldl {entries : List (TypeId × Name × Option TypeId)}
    (represents : indexed.Represents world)
    (distinct : (world.types.names ++ entries.map (·.2.1)).Nodup)
    (room : world.types.size + entries.length ≤ capacity) :
    (entries.foldl (fun indexed entry => (indexed.push entry.2.1 entry.2.2).2)
      indexed).Represents
      { world with types := ⟨world.types.types ++ entries.map fun (_, name, parent) =>
        { name, parent := parent }⟩ } := by
  induction entries generalizing indexed world with
  | nil =>
      rw [List.map_nil, List.append_nil]
      exact represents
  | cons entry rest ih =>
      obtain ⟨type, name, parent⟩ := entry
      rw [List.map_cons, List.append_cons] at distinct
      rw [List.length_cons] at room
      have new : world.types.lookup name = none := by
        rw [Registry.lookup_eq_none_iff]
        intro known
        have before := (List.nodup_append.mp distinct).1
        exact (List.nodup_append.mp before).2.2 name known name List.mem_cons_self rfl
      obtain ⟨_, pushed⟩ := represents.push new parent (by omega)
      have names : Registry.names ⟨world.types.types ++ [{ name, parent := parent }]⟩ =
          world.types.names ++ [name] := by
        simp [Registry.names, Registry.row]
      have last := ih pushed (by rwa [names]) (by
        rw [Registry.size, List.length_append, List.length_singleton, ← Registry.size]
        omega)
      rw [List.map_cons, List.append_cons]
      exact last

theorem represents_start (bare : world.types = .builtin) : (start world).Represents world := by
  have empty : Represents ⟨{ world with types := ⟨[]⟩ }, ∅⟩ { world with types := ⟨[]⟩ } :=
    ⟨rfl, fun _ => rfl⟩
  have distinct : (([] : List Name) ++ TypeId.builtins.map (·.2.1)).Nodup := by decide
  have room : 0 + TypeId.builtins.length ≤ capacity := by decide
  have filled := empty.foldl distinct room
  have same : { world with types := .builtin } = world := by rw [← bare]
  exact same ▸ filled

/-- Both tables give the same type, and stay inverse to each other. -/
theorem Represents.register (represents : indexed.Represents world) (name : Name)
    (parent : TypeId) (room : (world.types.register name parent).2.size ≤ capacity) :
    (indexed.register name parent).1 = (world.types.register name parent).1 ∧
      (indexed.register name parent).2.Represents
        { world with types := (world.types.register name parent).2 } := by
  have same := represents.byName name
  cases found : world.types.lookup name with
  | some known =>
      rw [found] at same
      rw [Registry.register_of_lookup found, Indexed.register, same]
      exact ⟨rfl, represents⟩
  | none =>
      rw [found] at same
      rw [Registry.register_of_new found] at room ⊢
      rw [Indexed.register, same]
      refine represents.push found (some parent) ?_
      rw [Registry.size, List.length_append, List.length_singleton] at room
      exact room

/-- Capabilities and documentation are not looked up by name. -/
theorem Represents.decorate {before after : World} {type : TypeId}
    (represents : indexed.Represents before)
    (decorates : Registry.Decorates type before.types after.types) :
    Represents { indexed with world := after } after where
  row := rfl
  byName name := (represents.byName name).trans (decorates.lookup name).symm

/-- A request that asks for no type leaves the map alone. -/
theorem answer_of_not_asked {request : TypeRequest} (silent : request.asked? = none) :
    indexed.answer request = ((indexed.world.answer request).1,
      { indexed with world := (indexed.world.answer request).2 }) := by
  cases request with
  | register | defineClass => cases silent
  | setCapability | eraseCapability | setDoc => rfl

theorem Represents.defineClass (represents : indexed.Represents world) (name : Name)
    (parent : Option TypeId) (members : List (Name × Value))
    (room : (world.types.register name (parent.getD .object)).2.size ≤ capacity) :
    (indexed.answer (.defineClass name parent members)).1 =
        (world.answer (.defineClass name parent members)).1 ∧
      (indexed.answer (.defineClass name parent members)).2.Represents
        (world.answer (.defineClass name parent members)).2 := by
  obtain ⟨reply, after⟩ := represents.register name (parent.getD .object) room
  have decorates := World.decorates_addMembers
    { world with types := (world.types.register name (parent.getD .object)).2 }
    (world.types.register name (parent.getD .object)).1 members
  refine ⟨congrArg some reply, ?_⟩
  simp only [Indexed.answer, reply, after.row]
  exact after.decorate decorates

/-- A request has the same reply, and the tables stay inverse to each other. -/
theorem Represents.answer (represents : indexed.Represents world) (request : TypeRequest)
    (room : (world.answer request).2.types.size ≤ capacity) :
    (indexed.answer request).1 = (world.answer request).1 ∧
      (indexed.answer request).2.Represents (world.answer request).2 := by
  cases asked : request.asked? with
  | none =>
      obtain ⟨type, decorates⟩ := world.answer_of_not_asked asked
      rw [answer_of_not_asked asked, represents.row]
      exact ⟨rfl, represents.decorate decorates⟩
  | some entry =>
      rw [(world.answer_of_asked asked).2.size] at room
      cases request with
      | register name parent =>
          cases asked
          obtain ⟨reply, after⟩ := represents.register name parent room
          exact ⟨congrArg some reply, after⟩
      | defineClass name parent members =>
          cases asked
          exact represents.defineClass name parent members room
      | setCapability | eraseCapability | setDoc => cases asked

theorem Represents.answerAll {history : List TypeRequest} (represents : indexed.Represents world)
    (room : (world.answerAll history).2.types.size ≤ capacity) :
    (indexed.answerAll history).1 = (world.answerAll history).1 ∧
      (indexed.answerAll history).2.Represents (world.answerAll history).2 := by
  induction history generalizing indexed world with
  | nil => exact ⟨rfl, represents⟩
  | cons request later ih =>
      have early := Nat.le_trans (World.size_le_answerAll _ later) room
      obtain ⟨reply, middle⟩ := represents.answer request early
      obtain ⟨replies, last⟩ := ih middle room
      exact ⟨congr (congrArg List.cons reply) replies, last⟩

end Indexed

/-! ## Fixed at registration -/

/-- Numbers, names and parents of the types, if these were asked for in this order. -/
structure Registry.Numbered (registry : Registry) (asked : List (Name × TypeId)) : Prop where
  /-- Lookup and name are inverse to each other. -/
  inverse : ∀ name type, registry.lookup name = some type ↔ registry.nameOf type = some name
  registered : ∀ type, registry.contains type = true ↔ ∃ name, registry.nameOf type = some name
  known : ∀ name, registry.lookup name ≠ none ↔
    name ∈ TypeId.builtins.map (·.2.1) ∨ name ∈ asked.map (·.1)
  builtin : ∀ entry ∈ TypeId.builtins,
    registry.nameOf entry.1 = some entry.2.1 ∧ registry.parentOf entry.1 = entry.2.2
  /-- The types that are not built in have consecutive numbers, in the order of their names. -/
  user : ∀ place name parent,
    (newTypes (TypeId.builtins.map (·.2.1)) asked)[place]? = some (name, parent) →
      registry.nameOf ⟨TypeId.firstUser + place⟩ = some name ∧
        registry.parentOf ⟨TypeId.firstUser + place⟩ = parent
  size : registry.size =
    TypeId.firstUser + (newTypes (TypeId.builtins.map (·.2.1)) asked).length

/-- What becomes of the types of a world with further requests. -/
structure World.KeepsTypes (world : World) : Prop where
  /-- A known name has its type already, whatever parent it comes with. -/
  again : ∀ name type parent, world.types.lookup name = some type →
    world.types.register name parent = (type, world.types)
  known : ∀ request name parent type, request.asked? = some (name, parent) →
    world.types.lookup name = some type →
      (world.answer request).1 = some type ∧
        Registry.Decorates type world.types (world.answer request).2.types
  /-- A new name has the next number, and the types before are what they were. -/
  new : ∀ request name parent, request.asked? = some (name, parent) →
    world.types.lookup name = none →
      (world.answer request).1 = some ⟨world.types.size⟩ ∧
        (world.answer request).2.types.row = world.types.row ++ [(name, some parent)] ∧
        Registry.Keeps world.types (world.answer request).2.types
  lasting : ∀ later type, world.types.contains type = true →
    (world.answerAll later).2.types.nameOf type = world.types.nameOf type ∧
      (world.answerAll later).2.types.parentOf type = world.types.parentOf type
  builtinName : ∀ type, type.isBuiltin = true → world.names type = type.builtinName

namespace Registry

variable {registry : Registry} {type : TypeId} {added : List (Name × Option TypeId)}
  {asked : List (Name × TypeId)}

theorem row_builtin : builtin.row = TypeId.builtins.map (·.2) := by
  rw [row, builtin, List.map_map]
  rfl

/-- A built-in type has its own place in the table of built-in types. -/
theorem builtins_placed : ∀ entry ∈ TypeId.builtins,
    TypeId.builtins[entry.1.index]? = some entry := by
  decide

section Rows

variable (same : registry.row = TypeId.builtins.map (·.2) ++ added)

include same

theorem names_eq_builtins_append :
    registry.names = TypeId.builtins.map (·.2.1) ++ added.map (·.1) := by
  rw [names_eq_append same, List.map_map]
  rfl

theorem row_of_builtin (inside : type.index < TypeId.builtins.length) :
    registry.row[type.index]? = TypeId.builtins[type.index]?.map (·.2) := by
  rw [same, List.getElem?_append_left (by rwa [List.length_map]), List.getElem?_map]

theorem row_of_user (place : Nat) : registry.row[TypeId.firstUser + place]? = added[place]? := by
  have length : (TypeId.builtins.map (·.2)).length = TypeId.firstUser := rfl
  rw [same, List.getElem?_append_right (length ▸ Nat.le_add_right _ _), length,
    Nat.add_sub_cancel_left]

end Rows

theorem numbered_of_row (same : registry.row = TypeId.builtins.map (·.2) ++
    newTypes (TypeId.builtins.map (·.2.1)) asked) : registry.Numbered asked := by
  have names := names_eq_builtins_append same
  have distinct : registry.names.Nodup := by
    rw [names]
    exact nodup_newTypes (by decide) asked
  constructor
  case inverse => exact fun name type => lookup_eq_some_iff distinct
  case registered => exact fun type => contains_iff_exists_name
  case known =>
    intro name
    rw [ne_eq, lookup_eq_none_iff, not_not, names]
    exact mem_newTypes
  case builtin =>
    intro entry member
    have placed := builtins_placed entry member
    have inside := (List.getElem?_eq_some_iff.mp placed).1
    rw [nameOf_eq_row, parentOf_eq, row_of_builtin same inside, placed]
    exact ⟨rfl, rfl⟩
  case user =>
    intro place name parent found
    rw [nameOf_eq_row, parentOf_eq, row_of_user same, found]
    exact ⟨rfl, rfl⟩
  case size =>
    rw [← length_row, same, List.length_append, List.length_map, TypeId.length_builtins]

end Registry

namespace World

variable {world : World} {added : List (Name × Option TypeId)}

theorem lasting_answerAll (later : List TypeRequest) {type : TypeId}
    (known : world.types.contains type = true) :
    (world.answerAll later).2.types.nameOf type = world.types.nameOf type ∧
      (world.answerAll later).2.types.parentOf type = world.types.parentOf type := by
  obtain ⟨rest, grown⟩ := world.row_prefix_answerAll later
  have inside : type.index < world.types.row.length := by
    rw [Registry.length_row]
    exact Registry.contains_iff.mp known
  simp only [Registry.nameOf_eq_row, Registry.parentOf_eq, ← grown,
    List.getElem?_append_left inside, and_self]

/-- A type that is registered before is none that a new name gets. -/
theorem keeps_answer_of_new {request : TypeRequest} {name : Name} {parent : TypeId}
    (asked : request.asked? = some (name, parent)) (new : world.types.lookup name = none) :
    Registry.Keeps world.types (world.answer request).2.types := by
  have decorates := (world.answer_of_asked asked).2
  intro type known
  have early : type ≠ (world.types.register name parent).1 := by
    rw [Registry.register_of_new new]
    rintro rfl
    exact Nat.lt_irrefl _ (Registry.contains_iff.mp known)
  rw [decorates.others type early]
  exact Registry.keeps_register world.types name parent type known

theorem keepsTypes_of_row (same : world.types.row = TypeId.builtins.map (·.2) ++ added) :
    world.KeepsTypes where
  again name type parent known := Registry.register_of_lookup known parent
  known request name parent type asked known := by
    have answered := world.answer_of_asked asked
    rw [Registry.register_of_lookup known] at answered
    exact answered
  new request name parent asked new := by
    have answered := world.answer_of_asked asked
    refine ⟨?_, ?_, keeps_answer_of_new asked new⟩
    · rw [answered.1, Registry.register_of_new new]
    · rw [answered.2.row, Registry.register_of_new new]
      exact List.map_append
  lasting later type known := lasting_answerAll later known
  builtinName type builtin := by
    have inside : type.index < TypeId.builtins.length := of_decide_eq_true builtin
    rw [names, Registry.nameOf_eq_row, Registry.row_of_builtin same inside, Option.map_map]
    rfl

/--
The types of a world are numbered in the order in which their names were first
asked for, after the built-in types, and whatever is requested later, they keep
their numbers, names and parents.  A map from names to numbers that is kept
beside the row of types agrees with it as long as numbers fit into 32 bits.
-/
theorem types_fixed_at_registration (bare : world.types = .builtin) (history : List TypeRequest)
    (room : (world.answerAll history).2.types.size ≤ Indexed.capacity) :
    (world.answerAll history).2.types.Numbered (TypeRequest.allAsked history) ∧
      (world.answerAll history).2.KeepsTypes ∧
      ((Indexed.start world).answerAll history).1 = (world.answerAll history).1 ∧
      ((Indexed.start world).answerAll history).2.Represents (world.answerAll history).2 := by
  have start : Registry.builtin.names = TypeId.builtins.map (·.2.1) := by
    rw [Registry.names, Registry.row_builtin, List.map_map]
    rfl
  have row := world.row_answerAll history
  rw [bare, Registry.row_builtin, start] at row
  refine ⟨Registry.numbered_of_row row, keepsTypes_of_row row, ?_⟩
  exact (Indexed.represents_start bare).answerAll room

/-- Two classes are new, and one takes the name of a built-in type. -/
def reusing : List TypeRequest :=
  [.register "First" .keyError, .defineClass "KeyError" none [("__doc__", .str "mine")],
    .defineClass "Second" (some ⟨25⟩) [("first", .type ⟨25⟩)], .register "First" .object,
    .eraseCapability ⟨26⟩ "first", .setDoc ⟨99⟩ "nobody"]

theorem types_fixed_at_registration_reusing :
    ∃ world : World, world.types = .builtin ∧
      (world.answerAll reusing).1 =
        [some ⟨25⟩, some .keyError, some ⟨26⟩, some ⟨25⟩, none, none] ∧
      (world.answerAll reusing).2.types.Numbered
        [("First", .keyError), ("KeyError", .object), ("Second", ⟨25⟩), ("First", .object)] :=
  ⟨⟨{}, .builtin, ∅, ∅, []⟩, rfl, rfl, (types_fixed_at_registration rfl reusing (by decide)).1⟩

end World

end ScriptCore
