import ScriptCore.Call
import ScriptCore.Proofs.Errors.Worlds

/-!
# Operations with well-formed errors

Whatever an operation is asked to do in a proper world with proper operands, it gives a
proper value or a proper error, and the world is proper afterwards.  The one exception
makes an error of any type that it is given.
-/

namespace ScriptCore

/-! ## Results -/

/-- A result that is a proper error or something with the property. -/
def Answers {α : Type} (types : Registry) (holds : α → Prop) : Except Error α → Prop
  | .ok a => holds a
  | .error error => error.Proper types

section Results

variable {α β : Type} {types : Registry} {holds : α → Prop} {middle : β → Prop}

theorem Answers.of_ok {result : Except Error α} {a : α} (answers : Answers types holds result)
    (given : result = .ok a) : holds a := by
  rw [given] at answers
  exact answers

theorem Answers.of_error {result : Except Error α} {error : Error}
    (answers : Answers types holds result) (refused : result = .error error) :
    error.Proper types := by
  rw [refused] at answers
  exact answers

theorem Answers.imp {other : α → Prop} {result : Except Error α}
    (answers : Answers types holds result) (implies : ∀ a, holds a → other a) :
    Answers types other result := by
  cases result with
  | error error => exact answers
  | ok a => exact implies a answers

theorem Answers.bind {first : Except Error β} {next : β → Except Error α}
    (answers : Answers types middle first)
    (further : ∀ b, middle b → Answers types holds (next b)) :
    Answers types holds (first >>= next) := by
  cases first with
  | error error => exact answers
  | ok b => exact further b answers

theorem Answers.map {first : Except Error β} {f : β → α} (answers : Answers types middle first)
    (further : ∀ b, middle b → holds (f b)) : Answers types holds (first.map f) := by
  cases first with
  | error error => exact answers
  | ok b => exact further b answers

theorem Answers.ite {condition : Prop} [Decidable condition] {yes no : Except Error α}
    (whenTrue : condition → Answers types holds yes)
    (whenFalse : ¬condition → Answers types holds no) :
    Answers types holds (if condition then yes else no) := by
  by_cases so : condition
  · rw [if_pos so]
    exact whenTrue so
  · rw [if_neg so]
    exact whenFalse so

end Results

@[simp]
theorem proper_ofNames {types : Registry} (names : List Name) :
    (Value.ofNames names).Proper types := by
  simp [Value.ofNames]

/-- What is true of all operands is true of the keys and values that they make up. -/
theorem MakeOp.forall_mem_pairs {holds : Value → Prop} {operands : List Value}
    (held : ∀ operand ∈ operands, holds operand) :
    ∀ pair ∈ pairs operands, holds pair.1 ∧ holds pair.2 := by
  fun_induction pairs operands with
  | case1 key value rest ih =>
      simp only [List.forall_mem_cons] at held ⊢
      exact ⟨⟨held.1, held.2.1⟩, ih held.2.2⟩
  | case2 => exact nofun

/--
Whether an operation may be performed as far as errors go: an error value is made of an
exception type only.
-/
def Operation.admissible (types : Registry) (op : Operation) (operands : List Value) : Bool :=
  match op, operands with
  | .make .error, [.type type, _] => types.isSubtype type .exception
  | _, _ => true

/-- What a step that gives a value makes of a world and a frame: all is proper again. -/
structure World.LeadsIn (before : World) (made : Value × Frame × World) : Prop where
  step : before.Leads (made.1, made.2.2)
  locals : made.2.1.locals.Every (Value.Proper made.2.2.types)

namespace World.Proper

variable {world : World} (proper : world.Proper) {target value : Value} {name : Name}
  {operands : List Value}

include proper

/-- Whatever goes wrong, the error that the cause calls for is proper. -/
theorem refuses {α : Type} {holds : α → Prop} (cause : Cause) :
    Answers world.types holds (.error (.ofCause cause)) :=
  Error.Proper.ofCause proper.builtin cause

/-! ## Attributes -/

theorem ownAttribute : ∀ found ∈ world.ownAttribute value name, found.Proper world.types := by
  intro found same
  cases value with
  | object id type => exact proper.heap.attributes id name found same
  | function id =>
      simp only [Option.mem_def, World.ownAttribute] at same
      split at same
      · next attached =>
          cases same
          exact proper.heap.attributes id name _ attached
      · obtain ⟨definition, _, same⟩ := Option.bind_eq_some_iff.mp same
        split at same
        · cases same
          exact proper_str _
        · cases same
          exact proper_ofText _
        · cases same
  | native native =>
      simp only [Option.mem_def, World.ownAttribute] at same
      split at same
      · cases same
        exact proper_str _
      · cases same
        exact proper_ofText _
      · cases same
  | _ => cases same

theorem typeAttribute {type : TypeId} :
    ∀ found ∈ world.typeAttribute type name, found.Proper world.types := by
  intro found same
  simp only [Option.mem_def, World.typeAttribute] at same
  split at same
  · cases same
    exact proper_str _
  · cases same
    simp
  · cases same
    exact proper_ofText _
  · exact proper.resolve same

theorem inheritedAttribute (held : value.Proper world.types) :
    ∀ found ∈ world.inheritedAttribute value name, found.Proper world.types := by
  intro found same
  simp only [Option.mem_def, World.inheritedAttribute] at same
  split at same
  · cases same
    exact proper_type _
  · obtain ⟨defined, resolved, rfl⟩ := Option.map_eq_some_iff.mp same
    have own := proper.resolve resolved
    unfold World.bindTo
    split
    · exact proper_boundMethod.mpr ⟨held, own⟩
    · exact proper_boundMethod.mpr ⟨held, own⟩
    · exact own

theorem lookupAttribute (held : value.Proper world.types) :
    ∀ found ∈ world.lookupAttribute value name, found.Proper world.types := by
  intro found same
  simp only [Option.mem_def, World.lookupAttribute] at same
  split at same
  · next attached =>
      cases same
      exact proper.ownAttribute _ attached
  · split at same
    · next asked =>
        cases same
        obtain ⟨type, _, asked⟩ := Option.bind_eq_some_iff.mp asked
        exact proper.typeAttribute _ asked
    · exact proper.inheritedAttribute held _ same

theorem getAttribute (held : value.Proper world.types) :
    Answers world.types (Value.Proper world.types) (world.getAttribute value name) := by
  unfold World.getAttribute
  split
  · next found => exact proper.lookupAttribute held _ found
  · exact proper.refuses _

theorem getAttributeOr (held : value.Proper world.types) {fallback : Value}
    (other : fallback.Proper world.types) :
    (world.getAttributeOr value name fallback).Proper world.types := by
  unfold World.getAttributeOr
  cases found : world.lookupAttribute value name with
  | none => exact other
  | some own => exact proper.lookupAttribute held _ found

theorem setTypeAttribute {type : TypeId} (held : value.Proper world.types) :
    Answers world.types (fun after => world.Leads (.none, after))
      (world.setTypeAttribute type name value) := by
  unfold World.setTypeAttribute
  split
  · split
    · exact proper.setDoc type _
    · exact proper.refuses _
  · exact proper.refuses _
  · exact proper.refuses _
  · exact proper.setCapability type name held

theorem setAttribute (held : value.Proper world.types) :
    Answers world.types (fun after => world.Leads (.none, after))
      (world.setAttribute target name value) := by
  have attached (id : Identity) : world.Leads
      (.none, { world with heap := world.heap.setAttribute id name value }) :=
    ⟨proper.withHeap (proper.heap.setAttributes id ((proper.heap.attributes id).set name held)),
      .refl _, proper_none⟩
  cases target with
  | object id _ => exact attached id
  | function id => exact attached id
  | type type => exact proper.setTypeAttribute held
  | _ => exact proper.refuses _

theorem deleteAttribute :
    Answers world.types (fun after => world.Leads (.none, after))
      (world.deleteAttribute target name) := by
  have detached (id : Identity) : world.Leads
      (.none, { world with heap := world.heap.eraseAttribute id name }) :=
    ⟨proper.withHeap (proper.heap.setAttributes id ((proper.heap.attributes id).erase name)),
      .refl _, proper_none⟩
  cases target with
  | object id _ => exact .ite (fun _ => detached id) fun _ => proper.refuses _
  | function id => exact .ite (fun _ => detached id) fun _ => proper.refuses _
  | type type =>
      exact .ite (fun _ => proper.eraseCapability type name) fun _ => proper.refuses _
  | _ => exact proper.refuses _

theorem attachedAttributes :
    Answers world.types (fun _ => True) (world.attachedAttributes value) := by
  cases value with
  | object id _ => exact trivial
  | function id => exact trivial
  | _ => exact proper.refuses _

/-! ## Operations -/

theorem resolveRef (ref : TypeRef) :
    Answers world.types (fun _ => True) (ref.resolve world.types) := by
  unfold TypeRef.resolve
  split
  · split
    · exact trivial
    · exact proper.refuses _
  · exact trivial

theorem performAttributes (op : AttributeOp)
    (held : ∀ operand ∈ operands, operand.Proper world.types) :
    Answers world.types world.Leads (op.perform world operands) := by
  unfold AttributeOp.perform
  split
  · exact (proper.getAttribute (held _ (by simp))).bind fun _ found => proper.leads found
  · exact proper.leads (proper.getAttributeOr (held _ (by simp)) (held _ (by simp)))
  · exact proper.leads (proper_bool _)
  · exact (proper.setAttribute (held _ (by simp))).bind fun _ leads => leads
  · exact proper.deleteAttribute.bind fun _ leads => leads
  · exact proper.attachedAttributes.bind fun _ _ => proper.leads (proper_ofNames _)
  · exact proper.attachedAttributes.bind fun _ _ => proper.leads (proper_bool _)
  · exact proper.attachedAttributes.bind fun _ _ => proper.leads (proper_ofNat _)
  · exact proper.refuses _

theorem performMake (op : MakeOp) (held : ∀ operand ∈ operands, operand.Proper world.types)
    (admissible : (Operation.make op).admissible world.types operands = true) :
    Answers world.types world.Leads (op.perform world operands) := by
  have members (names : List Name) {values : List Value} (kept : values ⊆ operands) :
      ∀ member ∈ names.zip values, member.2.Proper world.types :=
    fun member listed => held _ (kept (List.of_mem_zip listed).2)
  unfold MakeOp.perform
  split
  · exact proper.leads (proper_tuple.mpr held)
  · exact proper.newObject .list (Payload.proper_list.mpr held)
  · exact proper.newObject .dict
      (Payload.proper_mapping.mpr (.ofPairs (MakeOp.forall_mem_pairs held)))
  · refine (proper.resolveRef _).bind fun type _ => proper.newObject type ?_
    unfold Shape.payload
    split <;> simp
  · exact (proper.resolveRef _).bind fun type _ => proper.leads (proper_type type)
  · exact proper.leads (proper_boundMethod.mpr ⟨held _ (by simp), held _ (by simp)⟩)
  -- Here alone nothing is asked of the type, so that it must be admissible.
  · exact proper.newError (.raised world.names world.heap admissible (held _ (by simp)))
  · exact proper.defineNative _ _ _ _
  · exact proper.defineClass _ none (members _ (List.subset_cons_self _ _))
  · exact proper.defineClass _ (some _) (members _ (List.subset_cons_self _ _))
  · exact proper.refuses _

theorem performTypes (op : TypeOp) (held : ∀ operand ∈ operands, operand.Proper world.types) :
    Answers world.types world.Leads (op.perform world operands) := by
  unfold TypeOp.perform
  split
  · refine (proper.resolveRef _).bind fun parent _ => ?_
    exact { proper.register _ parent with value := proper_type _ }
  · exact proper.setCapability _ _ (held _ (by simp))
  · next ref name =>
      refine (proper.resolveRef ref).bind fun type _ => ?_
      have erased := proper.eraseCapability type name
      refine { erased with value := proper_ofOption.mpr fun _ found => ?_ }
      exact (proper.capability found).mono erased.grows
  · exact (proper.resolveRef _).bind fun type _ => proper.setDoc type _
  · exact (proper.resolveRef _).bind fun _ _ => proper.leads (proper_ofText _)
  · refine (proper.resolveRef _).bind fun _ _ => proper.leads (proper_ofOption.mpr ?_)
    exact fun _ found => proper.resolve found
  · refine (proper.resolveRef _).bind fun _ _ => proper.leads (proper_ofOption.mpr ?_)
    exact fun _ found => proper.capability found
  · exact (proper.resolveRef _).bind fun _ _ => proper.leads (by simp)
  · exact (proper.resolveRef _).bind fun _ _ => proper.leads (proper_ofText _)
  · exact (proper.resolveRef _).bind fun _ _ => proper.leads (proper_str _)
  · exact proper.leads (by simp)
  · exact (proper.resolveRef _).bind fun _ _ => proper.leads (by simp)
  · exact (proper.resolveRef _).bind fun _ _ => (proper.resolveRef _).bind fun _ _ =>
      proper.leads (proper_bool _)
  · exact (proper.resolveRef _).bind fun _ _ => proper.leads (proper_bool _)
  · exact proper.leads (proper_ofNat _)
  · exact (proper.resolveRef _).bind fun _ _ => proper.leads (proper_ofNat _)
  · exact proper.leads (proper_type _)
  · exact proper.leads (proper_str _)
  · exact (proper.resolveRef _).bind fun _ _ => proper.leads (proper_bool _)
  · exact proper.refuses _

theorem expectMapping :
    Answers world.types (fun found => found.2.Proper world.types) (world.expectMapping value) := by
  unfold World.expectMapping
  split
  · next found => exact proper.heap.mapping found
  · exact proper.refuses _

theorem expectObject : Answers world.types (fun _ => True) (world.expectObject value) := by
  cases value with
  | object id _ => exact trivial
  | _ => exact proper.refuses _

theorem push (id : Identity) (held : value.Proper world.types) :
    world.Leads (.none, (world.push id value).2) := by
  unfold World.push
  split
  · next items same =>
      have contents := proper.heap.payload id
      rw [same, Payload.proper_list] at contents
      refine ⟨proper.setPayload id (Payload.proper_list.mpr ?_), .refl _, proper_none⟩
      exact List.forall_mem_append.mpr ⟨contents, List.forall_mem_singleton.mpr held⟩
  · exact proper.leads proper_none

theorem performValues (op : ValueOp) (held : ∀ operand ∈ operands, operand.Proper world.types) :
    Answers world.types world.Leads (op.perform world operands) := by
  unfold ValueOp.perform
  split
  · exact proper.leads (proper_str _)
  · exact proper.leads (proper_str _)
  · exact proper.leads (proper_str _)
  · exact proper.leads (proper_bool _)
  · exact proper.leads (proper_bool _)
  · exact proper.leads (proper_ofText _)
  · exact proper.expectMapping.bind fun found so =>
      proper.leads (proper_ofOption.mpr (so.get? _))
  · next target key value =>
      refine proper.expectMapping.bind fun found so => ?_
      have inserted := so.insert (held key (by simp)) (held value (by simp))
      exact ⟨proper.setPayload _ (Payload.proper_mapping.mpr inserted), .refl _, proper_none⟩
  · exact proper.expectMapping.bind fun _ _ => proper.leads (proper_bool _)
  · next target key =>
      refine proper.expectMapping.bind fun found so => ?_
      have taken := so.get? key
      rw [← Mapping.remove_fst] at taken
      exact ⟨proper.setPayload _ (Payload.proper_mapping.mpr (so.remove key)), .refl _,
        proper_ofOption.mpr taken⟩
  · exact proper.expectMapping.bind fun _ _ => proper.leads (proper_ofNat _)
  · exact proper.expectMapping.bind fun _ _ => proper.leads (proper_bool _)
  · next target item =>
      refine proper.expectObject.bind fun id _ => ?_
      exact { proper.push id (held item (by simp)) with value := proper_bool _ }
  · next target index =>
      refine proper.expectObject.bind fun id _ => ?_
      split
      · refine proper.leads (proper_ofOption.mpr fun found same => ?_)
        have listed : found ∈ (world.heap.list? target).getD [] := by
          split at same
          · cases same
          · exact List.mem_of_getElem? same
        cases items : world.heap.list? target with
        | none => simp [items] at listed
        | some all =>
            rw [items] at listed
            exact proper.heap.list items found listed
      · exact proper.refuses _
  · refine proper.expectObject.bind fun id _ => proper.leads (proper_ofOption.mpr ?_)
    intro found same
    obtain ⟨items, listed, rfl⟩ := Option.map_eq_some_iff.mp same
    exact proper_tuple.mpr (proper.heap.list listed)
  · exact proper.expectObject.bind fun id _ => proper.leads (by simp)
  · exact proper.refuses _

theorem load {frame : Frame} (locals : frame.locals.Every (Value.Proper world.types)) :
    ∀ found ∈ frame.load world.globals name, found.Proper world.types := by
  intro found same
  rw [Option.mem_def, Frame.load] at same
  split at same
  · exact proper.globals name found same
  · split at same
    · next bound =>
        cases same
        exact locals name found bound
    · exact proper.globals name found same

theorem loadName {frame : Frame} (locals : frame.locals.Every (Value.Proper world.types)) :
    Answers world.types (Value.Proper world.types) (world.loadName frame name) := by
  unfold World.loadName Frame.resolve
  split
  · next found => exact proper.load locals _ found
  · split
    · next found => exact proper.builtins name _ found
    · exact proper.refuses _

theorem storeName {frame : Frame} (locals : frame.locals.Every (Value.Proper world.types))
    (name : Name) (held : value.Proper world.types) :
    let stored := frame.store world.globals name value
    stored.1.locals.Every (Value.Proper world.types) ∧
      { world with globals := stored.2 : World }.Proper := by
  unfold Frame.store
  split
  · exact ⟨locals, proper.withGlobals (proper.globals.set name held)⟩
  · exact ⟨locals.set name held, proper⟩

theorem unbindName {frame : Frame} (locals : frame.locals.Every (Value.Proper world.types))
    (name : Name) :
    let unbound := frame.delete world.globals name
    (∀ old ∈ unbound.1, old.Proper world.types) ∧
      unbound.2.1.locals.Every (Value.Proper world.types) ∧
      { world with globals := unbound.2.2 : World }.Proper := by
  unfold Frame.delete
  split
  · exact ⟨proper.globals name, locals, proper.withGlobals (proper.globals.erase name)⟩
  · exact ⟨locals name, locals.erase name, proper⟩

theorem performNames {frame : Frame} (op : NameOp)
    (locals : frame.locals.Every (Value.Proper world.types))
    (held : ∀ operand ∈ operands, operand.Proper world.types) :
    Answers world.types world.LeadsIn (op.perform frame world operands) := by
  have reply {value : Value} (so : value.Proper world.types) :
      world.LeadsIn (value, frame, world) := ⟨proper.leads so, locals⟩
  unfold NameOp.perform
  split
  · exact (proper.loadName locals).bind fun _ found => reply found
  · exact reply (proper_ofOption.mpr (proper.load locals))
  · next name value =>
      obtain ⟨kept, after⟩ := proper.storeName locals name (held value (by simp))
      exact ⟨⟨after, .refl _, held value (by simp)⟩, kept⟩
  · exact ⟨proper.leads proper_none, locals⟩
  · exact reply (proper_bool _)
  · next name =>
      obtain ⟨old, kept, after⟩ := proper.unbindName locals name
      exact ⟨⟨after, .refl _, proper_ofOption.mpr old⟩, kept⟩
  · exact reply (proper_ofOption.mpr (locals _))
  · exact reply (proper_ofNat _)
  · exact reply (proper_str _)
  · exact reply (proper_ofOption.mpr (proper.globals _))
  · next name value =>
      have so := held value (by simp)
      exact ⟨⟨proper.withGlobals (proper.globals.set name so), .refl _, so⟩, locals⟩
  · exact reply (proper_bool _)
  · next name =>
      exact ⟨⟨proper.withGlobals (proper.globals.erase name), .refl _,
        proper_ofOption.mpr (proper.globals name)⟩, locals⟩
  · exact reply (proper_ofNat _)
  · exact reply (proper_ofOption.mpr (proper.builtins _))
  · next name value =>
      have so := held value (by simp)
      exact ⟨⟨proper.withBuiltins (proper.builtins.set name so), .refl _, so⟩, locals⟩
  · exact proper.refuses _

/-! ## Errors raised by programs -/

theorem raise (type : TypeId) (held : value.Proper world.types) :
    (world.raise type value).Proper world.types := by
  unfold World.raise
  split
  · next exception => exact .raised _ _ exception held
  · exact .ofCause proper.builtin _

/-- An error is raised again as it is; everything else that is raised makes a new one. -/
theorem raiseValue (held : value.Proper world.types) :
    (world.raiseValue value).Proper world.types := by
  unfold World.raiseValue
  split
  · exact proper.raise _ proper_none
  · split
    · next made => exact proper_of_asError held made
    · exact .ofCause proper.builtin _

end World.Proper

/-! ## Operations of a machine -/

theorem Error.proper_inspect {types : Registry} {error : Error} (proper : error.Proper types) :
    error.inspect.Proper types := by
  simp [Error.inspect, proper.payload]

namespace Machine.Proper

variable {machine : Machine} (proper : machine.Proper) {operands : List Value}

include proper

theorem reraise : machine.reraise.Proper machine.world.types := by
  unfold Machine.reraise Machine.current?
  cases handled : machine.handling with
  | nil => exact .ofCause proper.world.builtin _
  | cons error rest => exact proper.handling error (handled ▸ List.mem_cons_self)

theorem performErrors (op : ErrorOp)
    (held : ∀ operand ∈ operands, operand.Proper machine.world.types) :
    Answers machine.world.types machine.world.Leads (op.perform machine operands) := by
  have failed (message : Option Value) (so : ∀ value ∈ message, value.Proper machine.world.types)
      (holds : Bool) : Answers machine.world.types machine.world.Leads
        (ErrorOp.assertThat machine.world holds message) :=
    .ite (fun _ => proper.world.leads proper_none) fun _ =>
      .assertionFailed proper.world.builtin _ _ so
  unfold ErrorOp.perform
  split
  · exact proper.world.raiseValue (held _ (by simp))
  · next payload =>
      exact (proper.world.resolveRef _).bind fun type _ =>
        proper.world.raise type (held payload (by simp))
  · exact proper.reraise
  · exact failed none nofun _
  · next message => exact failed (some message) (by simpa using held) _
  · split
    · next error handled =>
        exact proper.world.newError (proper.handling error (List.mem_of_mem_head? handled))
    · exact proper.world.leads proper_none
  · exact proper.world.leads (proper_ofNat _)
  · exact proper.world.leads (proper_ofNat _)
  · exact proper.world.leads (by simp)
  · exact proper.world.leads (proper_ofNames _)
  · next value =>
      split
      · next error made =>
          have so := proper_of_asError (held value (by simp)) made
          exact proper.world.leads (Error.proper_inspect so)
      · exact proper.world.refuses _
  · exact proper.world.leads (proper_str _)
  · exact proper.world.refuses _

/-- Every operation that may be performed as far as errors go. -/
theorem perform {frame : Frame} (locals : frame.locals.Every (Value.Proper machine.world.types))
    (op : Operation) (held : ∀ operand ∈ operands, operand.Proper machine.world.types)
    (admissible : op.admissible machine.world.types operands = true) :
    Answers machine.world.types machine.world.LeadsIn (op.perform machine frame operands) := by
  have inFrame {result : Except Error (Value × World)}
      (answers : Answers machine.world.types machine.world.Leads result) :
      Answers machine.world.types machine.world.LeadsIn
        (result.map fun made => (made.1, frame, made.2)) :=
    answers.map fun made leads => ⟨leads, locals.mono fun _ so => so.mono leads.grows⟩
  cases op with
  | attributes op => exact inFrame (proper.world.performAttributes op held)
  | make op => exact inFrame (proper.world.performMake op held admissible)
  | names op => exact proper.world.performNames op locals held
  | errors op => exact inFrame (proper.performErrors op held)
  | types op => exact inFrame (proper.world.performTypes op held)
  | values op => exact inFrame (proper.world.performValues op held)

end Machine.Proper

end ScriptCore
