import ScriptCore.Call
import ScriptCore.Proofs.Attributes.Assignment
import ScriptCore.Proofs.Binding.Conservation

/-!
# The table of bodies

Function bodies are never replaced or removed.  A definition adds the body that it is
given, and nothing else that can be done with values adds more than natives.  The
functions that are recorded in the heap stay recorded as they are.  Calls of built-in
functions and types do not register any type either, and move none.
-/

namespace ScriptCore

/-- A step that does not fail gives something with the property. -/
def Gives {α : Type} (holds : α → Prop) (result : Except Error α) : Prop :=
  ∀ a, result = .ok a → holds a

section Results

variable {α β : Type} {holds : α → Prop}

@[simp]
theorem gives_ok {a : α} : Gives holds (.ok a) ↔ holds a := by
  refine ⟨fun gives => gives a rfl, fun held b given => ?_⟩
  cases given
  exact held

@[simp]
theorem gives_pure {a : α} : Gives holds (pure a : Except Error α) ↔ holds a := gives_ok

@[simp]
theorem gives_error (error : Error) : Gives holds (.error error) := nofun

@[simp]
theorem gives_bind {first : Except Error β} {next : β → Except Error α} :
    Gives holds (first >>= next) ↔ ∀ b, first = .ok b → Gives holds (next b) := by
  cases first with
  | error error => exact ⟨fun _ => nofun, fun _ => gives_error error⟩
  | ok b =>
      refine ⟨fun gives c same => ?_, fun gives => gives b rfl⟩
      cases same
      exact gives

@[simp]
theorem gives_map {result : Except Error β} {f : β → α} :
    Gives holds (result.map f) ↔ ∀ b, result = .ok b → holds (f b) := by
  cases result with
  | error error => exact ⟨fun _ => nofun, fun _ => gives_error error⟩
  | ok b =>
      refine ⟨fun gives c same => ?_, fun gives => gives_ok.mpr (gives b rfl)⟩
      cases same
      exact gives_ok.mp gives

@[simp]
theorem gives_functor {result : Except Error β} {f : β → α} :
    Gives holds (f <$> result) ↔ ∀ b, result = .ok b → holds (f b) := gives_map

theorem Gives.imp {other : α → Prop} {result : Except Error α} (gives : Gives holds result)
    (implies : ∀ a, holds a → other a) : Gives other result :=
  fun a given => implies a (gives a given)

@[simp]
theorem gives_ite {condition : Prop} [Decidable condition] {yes no : Except Error α} :
    Gives holds (if condition then yes else no) ↔
      (condition → Gives holds yes) ∧ (¬condition → Gives holds no) := by
  split <;> simp [*]

end Results

namespace World

/-! ## Changes of the world -/

/-- Nothing has been defined in between, and nothing that was defined is lost. -/
structure Stays (before after : World) : Prop where
  heap : before.heap.Retains after.heap
  bodies : after.bodies = before.bodies

/-- Nothing has been defined in between, and no type has come about or been moved. -/
structure Remains (before after : World) : Prop extends Stays before after where
  parents : Registry.SameParents before.types after.types

section Changes

variable {world before middle after : World} {target value : Value} {name : Name}

@[simp]
theorem Stays.refl (world : World) : world.Stays world := ⟨.refl _, rfl⟩

theorem Stays.trans (early : before.Stays middle) (late : middle.Stays after) :
    before.Stays after :=
  ⟨early.heap.trans late.heap, late.bodies.trans early.bodies⟩

/-- Types and names have no part in this. -/
@[simp]
theorem stays_mk {heap : Heap} {types : Registry} {globals : GlobalScope}
    {builtins : Table Name Value} :
    world.Stays ⟨heap, types, globals, builtins, world.bodies⟩ ↔ world.heap.Retains heap :=
  ⟨Stays.heap, fun retains => ⟨retains, rfl⟩⟩

@[simp]
theorem stays_allocate {made : Value × Heap} :
    world.Stays (world.allocate made).2 ↔ world.heap.Retains made.2 :=
  stays_mk

@[simp]
theorem stays_setPayload (world : World) (id : Identity) (payload : Payload) :
    world.Stays (world.setPayload id payload) :=
  stays_mk.mpr (world.heap.retains_setPayload id payload)

@[simp]
theorem Remains.refl (world : World) : world.Remains world := ⟨.refl _, .refl _⟩

/-- A new heap is no matter of the types. -/
@[simp]
theorem remains_mk {heap : Heap} {globals : GlobalScope} {builtins : Table Name Value} :
    world.Remains ⟨heap, world.types, globals, builtins, world.bodies⟩ ↔
      world.heap.Retains heap :=
  ⟨fun remains => remains.heap, fun retains => ⟨stays_mk.mpr retains, .refl _⟩⟩

@[simp]
theorem remains_allocate {made : Value × Heap} :
    world.Remains (world.allocate made).2 ↔ world.heap.Retains made.2 :=
  remains_mk

@[simp]
theorem remains_setPayload (world : World) (id : Identity) (payload : Payload) :
    world.Remains (world.setPayload id payload) :=
  remains_mk.mpr (world.heap.retains_setPayload id payload)

theorem remains_setAttribute (accepted : world.setAttribute target name value = .ok after) :
    world.Remains after := by
  cases assigns_of_setAttribute accepted with
  | object | function => exact remains_mk.mpr (world.heap.retains_setAttributes _ _)
  | doc type => exact ⟨stays_mk.mpr (.refl _), Registry.sameParents_setDoc _ type _⟩
  | capability type =>
      exact ⟨stays_mk.mpr (.refl _), Registry.sameParents_setCapability _ type name value⟩

theorem remains_deleteAttribute (accepted : world.deleteAttribute target name = .ok after) :
    world.Remains after := by
  have gives : Gives world.Remains (world.deleteAttribute target name) := by
    unfold deleteAttribute Heap.eraseAttribute
    split <;> simp
    exact fun _ => ⟨stays_mk.mpr (.refl _), Registry.sameParents_eraseCapability _ _ _⟩
  exact gives after accepted

@[simp]
theorem stays_push (world : World) (id : Identity) (item : Value) :
    world.Stays (world.push id item).2 := by
  unfold push
  split
  · exact world.stays_setPayload id _
  · exact .refl world

theorem stays_addMember (world : World) (type : TypeId) (name : Name) (value : Value) :
    world.Stays (world.addMember type name value) := by
  unfold addMember
  split
  · exact stays_mk.mpr (.refl _)
  · exact stays_mk.mpr (.refl _)

@[simp]
theorem stays_defineClass (world : World) (name : Name) (parent : Option TypeId)
    (members : List (Name × Value)) : world.Stays (world.defineClass name parent members).2 := by
  have added (current : World) : current.Stays (members.foldl (fun current member =>
      current.addMember (world.types.register name (parent.getD .object)).1 member.1 member.2)
      current) := by
    induction members generalizing current with
    | nil => exact .refl current
    | cons member rest ih => exact (current.stays_addMember _ _ _).trans (ih _)
  have registered : world.Stays
      { world with types := (world.types.register name (parent.getD .object)).2 } :=
    stays_mk.mpr (.refl _)
  exact registered.trans (added _)

end Changes

/-! ## Operations -/

/-- An operation defines a host function, or it defines nothing. -/
inductive Performs (before : World) : World → Prop where
  | stays {after : World} (stays : before.Stays after) : Performs before after
  | native (name : Name) (arity : Option Nat) (doc : Option String) (builtin : Builtin) :
      Performs before (before.defineNative name arity doc builtin).2

section Operations

variable (world : World) (operands : List Value)

theorem stays_attributes (op : AttributeOp) :
    Gives (world.Stays ·.2) (op.perform world operands) := by
  unfold AttributeOp.perform
  split <;> simp
  · exact fun _ accepted => (remains_setAttribute accepted).toStays
  · exact fun _ accepted => (remains_deleteAttribute accepted).toStays

theorem stays_values (op : ValueOp) : Gives (world.Stays ·.2) (op.perform world operands) := by
  unfold ValueOp.perform
  split <;> simp
  intro id object
  split <;> simp

theorem stays_types (op : TypeOp) : Gives (world.Stays ·.2) (op.perform world operands) := by
  unfold TypeOp.perform
  split <;> simp

theorem stays_names (frame : Frame) (op : NameOp) :
    Gives (world.Stays ·.2.2) (op.perform frame world operands) := by
  unfold NameOp.perform
  split <;> simp

theorem stays_errors (machine : Machine) (op : ErrorOp) :
    Gives (machine.world.Stays ·.2) (op.perform machine operands) := by
  unfold ErrorOp.perform ErrorOp.assertThat
  split <;> simp
  · split <;> simp
  · split <;> simp

@[simp]
theorem performs_of_stays {next : World} (stays : world.Stays next) : world.Performs next :=
  .stays stays

@[simp]
theorem performs_defineNative (name : Name) (arity : Option Nat) (doc : Option String)
    (builtin : Builtin) : world.Performs (world.defineNative name arity doc builtin).2 :=
  .native name arity doc builtin

theorem performs_make (op : MakeOp) : Gives (world.Performs ·.2) (op.perform world operands) := by
  unfold MakeOp.perform MakeOp.classValue
  split <;> simp

/-- No operation defines a user function. -/
theorem performs_perform (machine : Machine) (frame : Frame) (op : Operation) :
    Gives (machine.world.Performs ·.2.2) (op.perform machine frame operands) := by
  unfold Operation.perform
  cases op with
  | attributes op =>
      exact gives_map.mpr fun made performed =>
        .stays (stays_attributes _ operands op made performed)
  | make op => exact gives_map.mpr (performs_make _ operands op)
  | names op =>
      exact fun made performed => .stays (stays_names _ operands frame op made performed)
  | errors op =>
      exact gives_map.mpr fun made performed =>
        .stays (stays_errors operands machine op made performed)
  | types op =>
      exact gives_map.mpr fun made performed => .stays (stays_types _ operands op made performed)
  | values op =>
      exact gives_map.mpr fun made performed => .stays (stays_values _ operands op made performed)

/-- The second world has the bodies of the first one, and perhaps natives after them. -/
def AddsNatives (next : World) : Prop :=
  ∃ natives : List Builtin, next.bodies = world.bodies ++ natives.map .native

variable {world} in
theorem AddsNatives.of_bodies_eq {next : World} (same : next.bodies = world.bodies) :
    world.AddsNatives next :=
  ⟨[], by rw [same, List.map_nil, List.append_nil]⟩

variable {world} in
theorem Performs.addsNatives {next : World} (performs : world.Performs next) :
    world.AddsNatives next := by
  cases performs with
  | stays stays => exact .of_bodies_eq stays.bodies
  | native name arity doc builtin => exact ⟨[builtin], rfl⟩

theorem addsNatives_perform (machine : Machine) (frame : Frame) (op : Operation) :
    Gives (machine.world.AddsNatives ·.2.2) (op.perform machine frame operands) :=
  fun made performed => (performs_perform operands machine frame op made performed).addsNatives

end Operations

/-! ## Calls -/

section Calls

variable (world : World) (arguments : List Value)

theorem remains_emptyOf (type : TypeId) : Gives (world.Remains ·.2) (world.emptyOf type) := by
  simp [emptyOf]

theorem remains_convertTo (type : TypeId) (value : Value) :
    Gives (world.Remains ·.2) (world.convertTo type value) := by
  simp [convertTo]
  refine fun _ _ => ⟨fun _ => ?_, fun _ => ⟨fun _ => ?_, fun _ _ _ _ _ => ?_⟩⟩
  · split <;> simp
  · split <;> simp
  · split <;> simp

theorem remains_convert (type : TypeId) :
    Gives (world.Remains ·.2) (world.convert type arguments) := by
  unfold convert
  split
  · exact remains_emptyOf world type
  · exact remains_convertTo world type _
  · exact gives_error _

theorem remains_dict (method : DictMethod) :
    Gives (world.Remains ·.2) (method.run world arguments) := by
  unfold DictMethod.run
  split <;> simp
  intro id mapping found
  split <;> simp

theorem remains_list (method : ListMethod) :
    Gives (world.Remains ·.2) (method.run world arguments) := by
  unfold ListMethod.run
  split <;> simp

theorem remains_introspection (function : Introspection) :
    Gives (world.Remains ·.2) (function.run world arguments) := by
  unfold Introspection.run
  split <;> simp
  · exact fun _ _ _ => remains_setAttribute
  · exact fun _ _ _ => remains_deleteAttribute

theorem remains_runSimple (builtin : Builtin) :
    Gives (world.Remains ·.2) (builtin.runSimple world arguments) := by
  cases builtin with
  | number kind operation => simp [Builtin.runSimple]
  | dict method => exact remains_dict world arguments method
  | list method => exact remains_list world arguments method
  | tuple method => simp [Builtin.runSimple]
  | introspection function => exact remains_introspection world arguments function
  | length | sum | collect => exact gives_ok.mpr (.refl world)

theorem stays_runSimple (builtin : Builtin) :
    Gives (world.Stays ·.2) (builtin.runSimple world arguments) :=
  (remains_runSimple world arguments builtin).imp fun _ => Remains.toStays

theorem stays_convert (type : TypeId) :
    Gives (world.Stays ·.2) (world.convert type arguments) :=
  (remains_convert world arguments type).imp fun _ => Remains.toStays

theorem stays_bindArguments (function : FunctionDef) (arguments : Arguments) :
    Gives (world.Stays ·.2) (Machine.bindArguments function arguments world) :=
  gives_map.mpr fun _ bound => stays_mk.mpr (Binding.bind_conserves bound).heap.retains

end Calls

end World

end ScriptCore
