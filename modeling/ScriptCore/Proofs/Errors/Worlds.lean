import ScriptCore.Session
import ScriptCore.Proofs.Errors.WellFormed
import ScriptCore.Proofs.Mapping.FiniteMap
import ScriptCore.Proofs.World.Untouched

/-!
# Worlds with well-formed errors

Errors made into values may be anywhere in a world: in lists and mappings, under
attributes and names, among the capabilities of types and the defaults of functions.
Each change of a world asks only of the values it puts there that they are proper.
-/

namespace ScriptCore

/-! ## Tables and mappings -/

namespace Table

variable {κ α : Type} [DecidableEq κ] {table : Table κ α} {holds implied : α → Prop}

/-- All values of the table have the property. -/
def Every (holds : α → Prop) (table : Table κ α) : Prop :=
  ∀ key value, table.get? key = some value → holds value

@[simp]
theorem every_empty : (∅ : Table κ α).Every holds := nofun

theorem Every.mono (every : table.Every holds) (implies : ∀ value, holds value → implied value) :
    table.Every implied :=
  fun key value found => implies value (every key value found)

theorem Every.set (every : table.Every holds) (key : κ) {value : α} (held : holds value) :
    (table.set key value).Every holds := by
  intro other found same
  rw [get?_set] at same
  split at same
  · cases same
    exact held
  · exact every other found same

theorem Every.erase (every : table.Every holds) (key : κ) : (table.erase key).Every holds := by
  intro other found same
  rw [get?_erase] at same
  split at same
  · cases same
  · exact every other found same

theorem Every.setAll (every : table.Every holds) {pairs : List (κ × α)}
    (held : ∀ pair ∈ pairs, holds pair.2) : (table.setAll pairs).Every holds := by
  induction pairs generalizing table with
  | nil => exact every
  | cons pair rest ih =>
      rw [List.forall_mem_cons] at held
      exact ih (every.set pair.1 held.1) held.2

end Table

namespace Mapping

variable {holds : Value → Prop} {types : Registry} {mapping : Mapping} {key value : Value}
  {entries pairs : List (Value × Value)}

/-- All keys and values have the property. -/
def All (holds : Value → Prop) (mapping : Mapping) : Prop :=
  ∀ entry ∈ mapping.entries, holds entry.1 ∧ holds entry.2

@[simp]
theorem all_empty : (∅ : Mapping).All holds := nofun

theorem mem_put {entry : Value × Value} (member : entry ∈ put key value entries) :
    entry ∈ entries ∨ entry.2 = value ∧ (entry.1 = key ∨ ∃ old, (entry.1, old) ∈ entries) := by
  induction entries with
  | nil =>
      rw [put, List.mem_singleton] at member
      exact .inr ⟨congrArg Prod.snd member, .inl (congrArg Prod.fst member)⟩
  | cons first rest ih =>
      obtain ⟨head, old⟩ := first
      rw [put] at member
      split at member
      · rcases List.mem_cons.mp member with rfl | later
        · exact .inr ⟨rfl, .inr ⟨old, List.mem_cons_self⟩⟩
        · exact .inl (List.mem_cons_of_mem _ later)
      · rcases List.mem_cons.mp member with rfl | later
        · exact .inl List.mem_cons_self
        · rcases ih later with known | ⟨same, here | ⟨other, known⟩⟩
          · exact .inl (List.mem_cons_of_mem _ known)
          · exact .inr ⟨same, .inl here⟩
          · exact .inr ⟨same, .inr ⟨other, List.mem_cons_of_mem _ known⟩⟩

theorem All.insert (all : mapping.All holds) (keyHolds : holds key) (valueHolds : holds value) :
    (mapping.insert key value).All holds := by
  intro entry member
  rcases mem_put member with known | ⟨same, here | ⟨old, known⟩⟩
  · exact all entry known
  · exact ⟨here ▸ keyHolds, same ▸ valueHolds⟩
  · exact ⟨(all _ known).1, same ▸ valueHolds⟩

theorem All.ofPairs (all : ∀ pair ∈ pairs, holds pair.1 ∧ holds pair.2) :
    (ofPairs pairs).All holds := by
  have inserted (start : Mapping) (first : start.All holds) :
      (pairs.foldl (fun mapping pair => mapping.insert pair.1 pair.2) start).All holds := by
    induction pairs generalizing start with
    | nil => exact first
    | cons pair rest ih =>
        rw [List.forall_mem_cons] at all
        exact ih all.2 _ (first.insert all.1.1 all.1.2)
  exact inserted ∅ all_empty

theorem mem_of_find (found : find key entries = some value) :
    ∃ other, (other, value) ∈ entries := by
  induction entries with
  | nil => cases found
  | cons first rest ih =>
      obtain ⟨head, old⟩ := first
      rw [find] at found
      split at found
      · cases found
        exact ⟨head, List.mem_cons_self⟩
      · obtain ⟨other, member⟩ := ih found
        exact ⟨other, List.mem_cons_of_mem _ member⟩

theorem All.get? (all : mapping.All holds) (key : Value) :
    ∀ value ∈ mapping.get? key, holds value := by
  intro value found
  obtain ⟨other, member⟩ := mem_of_find found
  exact (all _ member).2

theorem All.remove (all : mapping.All holds) (key : Value) : (mapping.remove key).2.All holds :=
  fun entry member => all entry ((take_sublist key mapping.entries).subset member)

/-- All keys and values are proper. -/
def Proper (types : Registry) (mapping : Mapping) : Prop :=
  ∀ entry ∈ mapping.entries, entry.1.Proper types ∧ entry.2.Proper types

@[simp]
theorem proper_empty : (∅ : Mapping).Proper types := nofun

theorem Proper.insert (proper : mapping.Proper types) (properKey : key.Proper types)
    (properValue : value.Proper types) : (mapping.insert key value).Proper types :=
  All.insert proper properKey properValue

theorem Proper.ofPairs (proper : ∀ pair ∈ pairs, pair.1.Proper types ∧ pair.2.Proper types) :
    (ofPairs pairs).Proper types :=
  All.ofPairs proper

theorem Proper.get? (proper : mapping.Proper types) (key : Value) :
    ∀ value ∈ mapping.get? key, value.Proper types :=
  All.get? proper key

theorem Proper.remove (proper : mapping.Proper types) (key : Value) :
    (mapping.remove key).2.Proper types :=
  All.remove proper key

end Mapping

/-! ## Heaps -/

/-- All values that the object contains are proper. -/
def Payload.Proper (types : Registry) (payload : Payload) : Prop :=
  ∀ value ∈ payload.values, value.Proper types

section Payloads

variable {types : Registry}

@[simp]
theorem Payload.proper_plain : Payload.plain.Proper types := nofun

@[simp]
theorem Payload.proper_list {items : List Value} :
    (Payload.list items).Proper types ↔ ∀ item ∈ items, item.Proper types := Iff.rfl

@[simp]
theorem Payload.proper_mapping {mapping : Mapping} :
    (Payload.mapping mapping).Proper types ↔ mapping.Proper types := by
  simp only [Payload.Proper, Payload.values, List.forall_mem_flatMap, List.forall_mem_cons,
    List.not_mem_nil, false_imp_iff, implies_true, and_true, Mapping.Proper]

end Payloads

/-- All values kept in the heap are proper. -/
structure Heap.Proper (types : Registry) (heap : Heap) : Prop where
  payload : ∀ id, (heap.payload id).Proper types
  attributes : ∀ id, (heap.attributesOf id).Every (Value.Proper types)
  shared : ∀ {id definition}, heap.functions.get? id = some definition →
    ∀ p ∈ definition.signature.parameters, ∀ value, p.default = some (.shared value) →
      value.Proper types

namespace Heap.Proper

variable {types later : Registry} {heap : Heap} {value : Value} {id : Identity}

theorem mono (grows : types.Grows later) (proper : heap.Proper types) : heap.Proper later where
  payload id value member := (proper.payload id value member).mono grows
  attributes id := (proper.attributes id).mono fun _ held => held.mono grows
  shared defined p member value default := (proper.shared defined p member value default).mono grows

theorem setPayload (proper : heap.Proper types) (id : Identity) {payload : Payload}
    (held : payload.Proper types) : (heap.setPayload id payload).Proper types where
  payload other := by
    rw [Heap.payload, Heap.setPayload, Table.get?_set]
    split
    · exact held
    · exact proper.payload other
  attributes := proper.attributes
  shared := proper.shared

theorem setAttributes (proper : heap.Proper types) (id : Identity) {attributes : Attributes}
    (held : attributes.Every (Value.Proper types)) :
    (heap.setAttributes id attributes).Proper types where
  payload := proper.payload
  attributes other := by
    rw [Heap.attributesOf, Heap.setAttributes, Table.get?_set]
    split
    · exact held
    · exact proper.attributes other
  shared := proper.shared

theorem fresh (proper : heap.Proper types) : heap.fresh.2.Proper types :=
  ⟨proper.payload, proper.attributes, proper.shared⟩

theorem newObject (proper : heap.Proper types) (type : TypeId) {payload : Payload}
    (held : payload.Proper types) : (heap.newObject type payload).2.Proper types :=
  proper.fresh.setPayload _ held

theorem newFunction (proper : heap.Proper types) {definition : FunctionDef}
    (held : ∀ p ∈ definition.signature.parameters, ∀ value, p.default = some (.shared value) →
      value.Proper types) : (heap.newFunction definition).2.Proper types where
  payload := proper.payload
  attributes := proper.attributes
  shared := by
    intro id other defined
    rw [Heap.newFunction, Table.get?_set] at defined
    split at defined
    · cases defined
      exact held
    · exact proper.shared defined

theorem list (proper : heap.Proper types) {items : List Value}
    (found : heap.list? value = some items) : ∀ item ∈ items, item.Proper types := by
  cases value with
  | object id type =>
      have contents := proper.payload id
      simp only [list?] at found
      split at found
      · next same =>
          cases found
          rw [same] at contents
          exact contents
      · cases found
  | _ => cases found

theorem sequence (proper : heap.Proper types) (held : value.Proper types) {items : List Value}
    (found : heap.sequence? value = some items) : ∀ item ∈ items, item.Proper types := by
  unfold sequence? at found
  split at found
  · cases found
    exact proper_tuple.mp held
  · exact proper.list found

theorem mapping (proper : heap.Proper types) {mapping : Mapping}
    (found : heap.mapping? value = some mapping) : mapping.Proper types := by
  cases value with
  | object id type =>
      have contents := proper.payload id
      simp only [mapping?] at found
      split at found
      · next same =>
          cases found
          rw [same] at contents
          exact Payload.proper_mapping.mp contents
      · cases found
  | _ => cases found

end Heap.Proper

/-! ## Worlds -/

/-- The built-in types are known, and all values of the world are proper. -/
structure World.Proper (world : World) : Prop where
  builtin : Registry.builtin.Grows world.types
  heap : world.heap.Proper world.types
  capability : ∀ {type name value}, world.types.ownCapability type name = some value →
    value.Proper world.types
  globals : world.globals.Every (Value.Proper world.types)
  builtins : world.builtins.Every (Value.Proper world.types)

/-- What a step that gives a value makes of a world: all is proper again. -/
structure World.Leads (before : World) (made : Value × World) : Prop where
  world : made.2.Proper
  grows : before.types.Grows made.2.types
  value : made.1.Proper made.2.types

namespace World

variable {world : World} {value : Value}

namespace Proper

variable (proper : world.Proper)

include proper

theorem withHeap {heap : Heap} (held : heap.Proper world.types) :
    { world with heap : World }.Proper :=
  ⟨proper.builtin, held, proper.capability, proper.globals, proper.builtins⟩

theorem withGlobals {globals : GlobalScope} (held : globals.Every (Value.Proper world.types)) :
    { world with globals : World }.Proper :=
  ⟨proper.builtin, proper.heap, proper.capability, held, proper.builtins⟩

theorem withBuiltins {builtins : Table Name Value}
    (held : builtins.Every (Value.Proper world.types)) : { world with builtins : World }.Proper :=
  ⟨proper.builtin, proper.heap, proper.capability, proper.globals, held⟩

theorem addBody (body : Body) : (world.addBody body).2.Proper :=
  ⟨proper.builtin, proper.heap, proper.capability, proper.globals, proper.builtins⟩

/-- New types and capabilities leave everything else proper. -/
theorem withTypes {types : Registry} (grows : world.types.Grows types)
    (held : ∀ {type name value}, types.ownCapability type name = some value →
      value.Proper types) : { world with types : World }.Proper where
  builtin := proper.builtin.trans grows
  heap := proper.heap.mono grows
  capability := held
  globals := proper.globals.mono fun _ held => held.mono grows
  builtins := proper.builtins.mono fun _ held => held.mono grows

theorem resolve {type : TypeId} {name : Name} (found : world.types.resolve type name = some value) :
    value.Proper world.types := by
  obtain ⟨owner, _, defined⟩ := List.exists_of_findSome?_eq_some found
  exact proper.capability defined

/-- A step that gives nothing and leaves the world as it is. -/
theorem leads (held : value.Proper world.types) : world.Leads (value, world) :=
  ⟨proper, .refl _, held⟩

/-! ## Changes of types -/

/-- A change of one type that leaves its parent alone and adds no capability. -/
theorem withSameParents {types : Registry} (same : Registry.SameParents world.types types)
    (fewer : ∀ {type name value}, types.ownCapability type name = some value →
      world.types.ownCapability type name = some value) :
    world.Leads (.none, { world with types }) :=
  have grows := Registry.Grows.of_sameParents same
  ⟨proper.withTypes grows fun defined => (proper.capability (fewer defined)).mono grows, grows,
    proper_none⟩

theorem setCapability (type : TypeId) (name : Name) (held : value.Proper world.types) :
    world.Leads (.none, { world with types := world.types.setCapability type name value }) := by
  have grows := Registry.Grows.of_sameParents
    (Registry.sameParents_setCapability world.types type name value)
  refine ⟨proper.withTypes grows fun defined => ?_, grows, proper_none⟩
  rw [Registry.ownCapability_setCapability] at defined
  split at defined
  · cases defined
    exact held.mono grows
  · exact (proper.capability defined).mono grows

theorem eraseCapability (type : TypeId) (name : Name) :
    world.Leads (.none, { world with types := world.types.eraseCapability type name }) := by
  refine proper.withSameParents (Registry.sameParents_eraseCapability _ type name) ?_
  intro other asked found defined
  rw [Registry.ownCapability, Registry.eraseCapability, Registry.get?_modify] at defined
  split at defined
  · cases known : world.types.get? other with
    | none =>
        rw [known] at defined
        cases defined
    | some info =>
        rw [known, Option.map_some, Option.bind_some, Table.get?_erase] at defined
        split at defined
        · cases defined
        · rw [Registry.ownCapability, known, Option.bind_some, defined]
  · exact defined

theorem setDoc (type : TypeId) (doc : String) :
    world.Leads (.none, { world with types := world.types.setDoc type doc }) := by
  refine proper.withSameParents (Registry.sameParents_setDoc _ type doc) ?_
  intro other asked found defined
  rw [Registry.ownCapability, Registry.setDoc, Registry.bind_get?_modify] at defined
  · exact defined
  · exact fun _ => rfl

theorem register (name : Name) (parent : TypeId) :
    world.Leads (.none, { world with types := (world.types.register name parent).2 }) := by
  have grows := Registry.grows_register world.types name parent
  refine ⟨proper.withTypes grows fun defined => ?_, grows, proper_none⟩
  rw [Registry.ownCapability_register] at defined
  exact (proper.capability defined).mono grows

theorem addMember (type : TypeId) (name : Name) (held : value.Proper world.types) :
    world.Leads (.none, world.addMember type name value) := by
  unfold World.addMember
  split
  · exact proper.setDoc type _
  · exact proper.setCapability type name held

theorem addMembers (type : TypeId) {members : List (Name × Value)}
    (held : ∀ member ∈ members, member.2.Proper world.types) :
    world.Leads (.none, members.foldl (fun current member =>
      current.addMember type member.1 member.2) world) := by
  induction members generalizing world with
  | nil => exact proper.leads proper_none
  | cons member rest ih =>
      rw [List.forall_mem_cons] at held
      have first := proper.addMember type member.1 held.1
      have others := ih first.world fun other later => (held.2 other later).mono first.grows
      exact ⟨others.world, first.grows.trans others.grows, proper_none⟩

theorem defineClass (name : Name) (parent : Option TypeId) {members : List (Name × Value)}
    (held : ∀ member ∈ members, member.2.Proper world.types) :
    world.Leads (MakeOp.classValue (world.defineClass name parent members)) := by
  have registered := proper.register name (parent.getD .object)
  have added := registered.world.addMembers (world.types.register name (parent.getD .object)).1
    fun member listed => (held member listed).mono registered.grows
  exact ⟨added.world, registered.grows.trans added.grows, proper_type _⟩

/-! ## New values -/

theorem newObject (type : TypeId) {payload : Payload} (held : payload.Proper world.types) :
    world.Leads (world.allocate (world.heap.newObject type payload)) :=
  ⟨proper.withHeap (proper.heap.newObject type held), .refl _, proper_object _ type⟩

theorem newError {error : Error} (held : error.Proper world.types) :
    world.Leads (world.allocate (world.heap.newError error)) :=
  ⟨proper.withHeap proper.heap.fresh, .refl _, (proper_toValue _).mpr held⟩

theorem defineNative (name : Name) (arity : Option Nat) (doc : Option String)
    (builtin : Builtin) : world.Leads (world.defineNative name arity doc builtin) :=
  ⟨proper.addBody _, .refl _, proper_native _⟩

theorem setPayload (id : Identity) {payload : Payload} (held : payload.Proper world.types) :
    (world.setPayload id payload).Proper :=
  proper.withHeap (proper.heap.setPayload id held)

end Proper

/-! ## The fresh world -/

theorem proper_bare : bare.Proper where
  builtin := .refl _
  heap := ⟨fun _ => Payload.proper_plain, fun _ => Table.every_empty, nofun⟩
  capability defined := by
    rw [show bare.types = .builtin from rfl, Registry.ownCapability_builtin] at defined
    cases defined
  globals := Table.every_empty
  builtins := by
    refine Table.every_empty.setAll fun pair member => ?_
    obtain ⟨entry, _, rfl⟩ := List.mem_map.mp member
    exact proper_type entry.1

theorem Proper.addBuiltin (proper : world.Proper) (entry : Builtin.Entry) :
    (world.addBuiltin entry).Proper := by
  obtain ⟨owner, name, arity, doc, builtin⟩ := entry
  have defined := proper.defineNative name arity doc builtin
  cases owner with
  | some owner => exact (defined.world.setCapability owner name defined.value).world
  | none => exact defined.world.withBuiltins (defined.world.builtins.set name defined.value)

theorem proper_fresh : fresh.Proper := by
  have added (entries : List Builtin.Entry) (start : World) (proper : start.Proper) :
      (entries.foldl World.addBuiltin start).Proper := by
    induction entries generalizing start with
    | nil => exact proper
    | cons entry rest ih => exact ih _ (proper.addBuiltin entry)
  exact added _ _ proper_bare

end World

/-! ## Machines and activations -/

/-- The world is proper, and so are the errors being handled. -/
structure Machine.Proper (machine : Machine) : Prop where
  world : machine.world.Proper
  handling : ∀ error ∈ machine.handling, error.Proper machine.world.types

/-- The machine is proper, and so are the locals of the frame. -/
structure Activation.Proper (activation : Activation) : Prop where
  machine : activation.machine.Proper
  locals : activation.frame.locals.Every (Value.Proper activation.machine.world.types)

theorem Machine.Proper.withWorld {machine : Machine} {world : World} (proper : machine.Proper)
    (grows : machine.world.types.Grows world.types) (held : world.Proper) :
    { machine with world : Machine }.Proper :=
  ⟨held, fun error member => (proper.handling error member).mono grows⟩

theorem Activation.Proper.withMachine {activation : Activation} {machine : Machine}
    (proper : activation.Proper) (grows : activation.machine.world.types.Grows machine.world.types)
    (held : machine.Proper) : { activation with machine : Activation }.Proper :=
  ⟨held, proper.locals.mono fun _ so => so.mono grows⟩

theorem Session.proper_start (limit : Option Nat) : (start limit).Proper :=
  ⟨⟨World.proper_fresh, nofun⟩, Table.every_empty⟩

end ScriptCore
