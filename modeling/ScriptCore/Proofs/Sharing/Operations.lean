import ScriptCore.Proofs.Errors.Operations
import ScriptCore.Proofs.Sharing.Worlds

/-!
# Blind operations

Whatever an operation is asked to do in a closed world with operands in view, it does as
well under the veil, and what it gives is in view again.
-/

namespace ScriptCore

/-- What a step makes of a world and a frame: the world is closed, value and locals in view. -/
structure World.YieldsIn (concealed : Identity → Bool) (before : World)
    (made : Value × Frame × World) : Prop where
  step : before.Yields concealed (made.1, made.2.2)
  locals : made.2.1.locals.Every (Value.InView concealed made.2.2.heap)

/-- A step that gives a value, a frame and a world. -/
abbrev World.BlindStepIn (concealed : Identity → Bool) (world : World)
    (step : World → Except Error (Value × Frame × World)) : Prop :=
  world.Blind concealed (Prod.map id (Prod.map id (World.veil concealed)))
    (world.YieldsIn concealed) step

/-- A step that gives a world only. -/
abbrev World.BlindChange (concealed : Identity → Bool) (world : World)
    (step : World → Except Error World) : Prop :=
  world.Blind concealed (World.veil concealed)
    (fun after => world.Yields concealed (.none, after)) step

/-- A look that gives a value. -/
abbrev World.BlindLook (concealed : Identity → Bool) (world : World)
    (look : World → Except Error Value) : Prop :=
  world.Blind concealed id (Value.InView concealed world.heap) look

namespace World.Closed

variable {concealed : Identity → Bool} {world : World} (closed : world.Closed concealed)
  {target value : Value} {name : Name} {operands : List Value}

/-! ## Attributes -/

theorem ownAttribute_veil (held : value.InView concealed world.heap) :
    (world.veil concealed).ownAttribute value name = world.ownAttribute value name := by
  cases value with
  | object id type =>
      exact congrArg (Table.get? · name) (Heap.attributesOf_veil (inView_object.mp held).2)
  | function id =>
      have attached : (world.heap.veil concealed).attributesOf id = world.heap.attributesOf id :=
        Heap.attributesOf_veil (inView_function.mp held).2
      simp only [ownAttribute, World.veil, attached]
      rfl
  | _ => rfl

theorem lookupAttribute_veil (held : value.InView concealed world.heap) :
    (world.veil concealed).lookupAttribute value name = world.lookupAttribute value name := by
  rw [lookupAttribute, lookupAttribute, ownAttribute_veil held]
  rfl

theorem getAttributeOr_veil (held : value.InView concealed world.heap) (fallback : Value) :
    (world.veil concealed).getAttributeOr value name fallback =
      world.getAttributeOr value name fallback := by
  rw [getAttributeOr, lookupAttribute_veil held, getAttributeOr]

theorem hasAttribute_veil (held : value.InView concealed world.heap) :
    (world.veil concealed).hasAttribute value name = world.hasAttribute value name := by
  rw [hasAttribute, lookupAttribute_veil held, hasAttribute]

include closed

theorem ownAttribute (held : value.InView concealed world.heap) :
    ∀ found ∈ world.ownAttribute value name, found.InView concealed world.heap := by
  intro found same
  cases value with
  | object id type => exact closed.heap.attributes id (inView_object.mp held).2 name found same
  | function id =>
      simp only [Option.mem_def, World.ownAttribute] at same
      split at same
      · next attached =>
          cases same
          exact closed.heap.attributes id (inView_function.mp held).2 name _ attached
      · obtain ⟨definition, _, same⟩ := Option.bind_eq_some_iff.mp same
        split at same
        · cases same
          exact inView_str _
        · cases same
          exact inView_ofText _
        · cases same
  | native native =>
      simp only [Option.mem_def, World.ownAttribute] at same
      split at same
      · cases same
        exact inView_str _
      · cases same
        exact inView_ofText _
      · cases same
  | _ => cases same

theorem typeAttribute {type : TypeId} :
    ∀ found ∈ world.typeAttribute type name, found.InView concealed world.heap := by
  intro found same
  simp only [Option.mem_def, World.typeAttribute] at same
  split at same
  · cases same
    exact inView_str _
  · cases same
    simp
  · cases same
    exact inView_ofText _
  · exact closed.resolve same

theorem inheritedAttribute (held : value.InView concealed world.heap) :
    ∀ found ∈ world.inheritedAttribute value name, found.InView concealed world.heap := by
  intro found same
  simp only [Option.mem_def, World.inheritedAttribute] at same
  split at same
  · cases same
    exact inView_type _
  · obtain ⟨defined, resolved, rfl⟩ := Option.map_eq_some_iff.mp same
    have own := closed.resolve resolved
    unfold World.bindTo
    split
    · exact inView_boundMethod.mpr ⟨held, own⟩
    · exact inView_boundMethod.mpr ⟨held, own⟩
    · exact own

theorem lookupAttribute (held : value.InView concealed world.heap) :
    ∀ found ∈ world.lookupAttribute value name, found.InView concealed world.heap := by
  intro found same
  simp only [Option.mem_def, World.lookupAttribute] at same
  split at same
  · next attached =>
      cases same
      exact closed.ownAttribute held _ attached
  · split at same
    · next asked =>
        cases same
        obtain ⟨type, _, asked⟩ := Option.bind_eq_some_iff.mp asked
        exact closed.typeAttribute _ asked
    · exact closed.inheritedAttribute held _ same

theorem getAttribute (held : value.InView concealed world.heap) :
    world.BlindLook concealed fun world => world.getAttribute value name := by
  refine .look ?_ ?_ ?_
  · simp only [World.getAttribute, lookupAttribute_veil held]
    rfl
  · intro found got
    unfold World.getAttribute at got
    split at got
    · next looked =>
        cases got
        exact closed.lookupAttribute held _ looked
    · cases got
  · intro error refused
    unfold World.getAttribute at refused
    split at refused
    · cases refused
    · cases refused
      exact Error.inView_ofCause _

theorem getAttributeOr (held : value.InView concealed world.heap) {fallback : Value}
    (other : fallback.InView concealed world.heap) :
    (world.getAttributeOr value name fallback).InView concealed world.heap := by
  unfold World.getAttributeOr
  cases found : world.lookupAttribute value name with
  | none => exact other
  | some own => exact closed.lookupAttribute held _ found

theorem setTypeAttribute {type : TypeId} (held : value.InView concealed world.heap) :
    world.BlindChange concealed fun world => world.setTypeAttribute type name value := by
  unfold World.setTypeAttribute
  split
  · split
    · exact .give rfl ⟨closed.setDoc type _, .refl _, inView_none⟩
    · exact .refuses rfl
  · exact .refuses rfl
  · exact .refuses rfl
  · exact .give rfl ⟨closed.setCapability type name held, .refl _, inView_none⟩

theorem changeAttributes {id : Identity} (seen : world.heap.InView concealed id)
    (change : Attributes → Attributes)
    (held : (change (world.heap.attributesOf id)).Every (Value.InView concealed world.heap)) :
    world.BlindChange concealed fun world =>
      .ok { world with
        heap := world.heap.setAttributes id (change (world.heap.attributesOf id)) } := by
  have keeps := Heap.Keeps.setAttributes world.heap id (change (world.heap.attributesOf id))
  have after := closed.withHeap keeps (closed.heap.setAttributes seen.1 held)
  refine .give ?_ ⟨after, keeps, inView_none⟩
  simp only [World.veil, Heap.veil_setAttributes seen.2, Heap.attributesOf_veil seen.2]

theorem setAttribute (seen : target.InView concealed world.heap)
    (held : value.InView concealed world.heap) :
    world.BlindChange concealed fun world => world.setAttribute target name value := by
  have attached {id : Identity} (seen : world.heap.InView concealed id) :
      world.BlindChange concealed fun world =>
        .ok { world with heap := world.heap.setAttribute id name value } :=
    closed.changeAttributes seen (·.set name value)
      ((closed.heap.attributes id seen.2).set name held)
  cases target with
  | object id _ => exact attached (inView_object.mp seen)
  | function id => exact attached (inView_function.mp seen)
  | type type => exact closed.setTypeAttribute held
  | _ => exact .refuses rfl

theorem deleteAttribute (seen : target.InView concealed world.heap) :
    world.BlindChange concealed fun world => world.deleteAttribute target name := by
  have detached {id : Identity} (seen : world.heap.InView concealed id) :
      world.BlindChange concealed fun world =>
        if (world.heap.attributesOf id).contains name then
          .ok { world with heap := world.heap.eraseAttribute id name }
        else .error (world.noSuchAttribute target name) := by
    refine .ite ?_ (fun _ => ?_) fun _ => .refuses rfl
    · rw [World.veil, Heap.attributesOf_veil seen.2]
    · exact closed.changeAttributes seen (·.erase name)
        ((closed.heap.attributes id seen.2).erase name)
  cases target with
  | object id _ => exact detached (inView_object.mp seen)
  | function id => exact detached (inView_function.mp seen)
  | type type =>
      exact .ite Iff.rfl (fun _ => .give rfl
        ⟨closed.eraseCapability type name, .refl _, inView_none⟩) fun _ => .refuses rfl
  | _ => exact .refuses rfl

omit closed in
theorem attachedAttributes (seen : value.InView concealed world.heap) :
    world.Blind concealed id (fun _ => True) fun world => world.attachedAttributes value := by
  cases value with
  | object id _ =>
      exact .give (Heap.attributesOf_veil (inView_object.mp seen).2) trivial
  | function id =>
      exact .give (Heap.attributesOf_veil (inView_function.mp seen).2) trivial
  | _ => exact .refuses rfl

/-! ## Operations -/

omit closed in
theorem resolveRef (ref : TypeRef) :
    world.Blind concealed id (fun _ => True) fun world => ref.resolve world.types := by
  refine .look rfl (fun _ _ => trivial) fun error refused => ?_
  unfold TypeRef.resolve at refused
  split at refused
  · split at refused
    · cases refused
    · cases refused
      exact Error.inView_ofCause _
  · cases refused

theorem performAttributes (op : AttributeOp)
    (held : ∀ operand ∈ operands, operand.InView concealed world.heap) :
    world.BlindStep concealed fun world => op.perform world operands := by
  unfold AttributeOp.perform
  split
  · exact (closed.getAttribute (held _ (by simp))).bind fun _ found => closed.reply rfl found
  · next value fallback =>
      have seen := held value (by simp)
      exact closed.reply (getAttributeOr_veil seen fallback)
        (closed.getAttributeOr seen (held fallback (by simp)))
  · next value =>
      exact closed.reply (congrArg Value.bool (hasAttribute_veil (held value (by simp))))
        (inView_bool _)
  · next target value =>
      exact (closed.setAttribute (held target (by simp)) (held value (by simp))).bindPure
        (fun _ => rfl) fun _ leads => leads
  · next target =>
      exact (closed.deleteAttribute (held target (by simp))).bindPure (fun _ => rfl)
        fun _ leads => leads
  · exact (attachedAttributes (held _ (by simp))).bind fun _ _ =>
      closed.reply rfl (inView_ofNames _)
  · exact (attachedAttributes (held _ (by simp))).bind fun _ _ => closed.reply rfl (inView_bool _)
  · exact (attachedAttributes (held _ (by simp))).bind fun _ _ => closed.reply rfl (inView_ofNat _)
  · exact .refuses rfl

theorem performMake (op : MakeOp)
    (held : ∀ operand ∈ operands, operand.InView concealed world.heap) :
    world.BlindStep concealed fun world => op.perform world operands := by
  have members (names : List Name) {values : List Value} (kept : values ⊆ operands) :
      ∀ member ∈ names.zip values, member.2.InView concealed world.heap :=
    fun member listed => held _ (kept (List.of_mem_zip listed).2)
  unfold MakeOp.perform
  split
  · exact closed.reply rfl (inView_tuple.mpr held)
  · exact closed.newObject .list (Payload.inView_list.mpr held)
  · exact closed.newObject .dict
      (Payload.inView_mapping.mpr (.ofPairs (MakeOp.forall_mem_pairs held)))
  · refine (resolveRef _).bind fun type _ => closed.newObject type ?_
    unfold Shape.payload
    split <;> simp
  · exact (resolveRef _).bind fun type _ => closed.reply rfl (inView_type type)
  · exact closed.reply rfl (inView_boundMethod.mpr ⟨held _ (by simp), held _ (by simp)⟩)
  · next type payload =>
      have seen := held payload (by simp)
      exact closed.newError (Error.raised_veil closed.heap type seen) seen
  · exact closed.defineNative _ _ _ _
  · exact closed.defineClass _ none (members _ (List.subset_cons_self _ _))
  · exact closed.defineClass _ (some _) (members _ (List.subset_cons_self _ _))
  · exact .refuses rfl

theorem performTypes (op : TypeOp)
    (held : ∀ operand ∈ operands, operand.InView concealed world.heap) :
    world.BlindStep concealed fun world => op.perform world operands := by
  unfold TypeOp.perform
  split
  · exact (resolveRef _).bind fun parent _ =>
      .give rfl ⟨closed.register _ parent, .refl _, inView_type _⟩
  · next value =>
      exact .give rfl ⟨closed.setCapability _ _ (held value (by simp)), .refl _, inView_none⟩
  · exact (resolveRef _).bind fun type _ => .give rfl ⟨closed.eraseCapability type _, .refl _,
      inView_ofOption.mpr fun _ found => closed.capability found⟩
  · exact (resolveRef _).bind fun type _ =>
      .give rfl ⟨closed.setDoc type _, .refl _, inView_none⟩
  · exact (resolveRef _).bind fun _ _ => closed.reply rfl (inView_ofText _)
  · exact (resolveRef _).bind fun _ _ =>
      closed.reply rfl (inView_ofOption.mpr fun _ found => closed.resolve found)
  · exact (resolveRef _).bind fun _ _ =>
      closed.reply rfl (inView_ofOption.mpr fun _ found => closed.capability found)
  · exact (resolveRef _).bind fun _ _ => closed.reply rfl (by simp)
  · exact (resolveRef _).bind fun _ _ => closed.reply rfl (inView_ofText _)
  · exact (resolveRef _).bind fun _ _ => closed.reply rfl (inView_str _)
  · exact closed.reply rfl (by simp)
  · exact (resolveRef _).bind fun _ _ => closed.reply rfl (by simp)
  · exact (resolveRef _).bind fun _ _ => (resolveRef _).bind fun _ _ =>
      closed.reply rfl (inView_bool _)
  · exact (resolveRef _).bind fun _ _ => closed.reply rfl (inView_bool _)
  · exact closed.reply rfl (inView_ofNat _)
  · exact (resolveRef _).bind fun _ _ => closed.reply rfl (inView_ofNat _)
  · exact closed.reply rfl (inView_type _)
  · exact closed.reply rfl (inView_str _)
  · exact (resolveRef _).bind fun _ _ => closed.reply rfl (inView_bool _)
  · exact .refuses rfl

theorem expectMapping (seen : value.InView concealed world.heap) :
    world.Blind concealed id (fun found => found.2.InView concealed world.heap ∧
      world.heap.InView concealed found.1) fun world => world.expectMapping value := by
  have same := Heap.mapping?_veil seen
  refine .look ?_ (fun found got => ?_) fun error refused => ?_
  · simp only [World.expectMapping, World.veil, same]
    rfl
  · unfold World.expectMapping at got
    split at got
    · next kept =>
        cases got
        exact ⟨closed.heap.mapping seen kept, inView_object.mp seen⟩
    · cases got
  · unfold World.expectMapping at refused
    split at refused
    · cases refused
    · cases refused
      exact Error.inView_ofCause _

omit closed in
theorem expectObject (seen : value.InView concealed world.heap) :
    world.Blind concealed id (world.heap.InView concealed) fun world =>
      world.expectObject value := by
  cases value with
  | object id _ => exact .give rfl (inView_object.mp seen)
  | _ => exact .refuses rfl

/-- Put new contents into an object in view. -/
theorem setContents {id : Identity} (seen : world.heap.InView concealed id) {payload : Payload}
    (held : payload.InView concealed world.heap) (reply : Value)
    (replySeen : reply.InView concealed world.heap) :
    world.BlindStep concealed fun world => .ok (reply, world.setPayload id payload) := by
  have keeps := Heap.Keeps.setPayload world.heap id payload
  refine .give (Prod.ext rfl ?_)
    ⟨closed.withHeap keeps (closed.heap.setPayload seen.1 held), keeps, replySeen⟩
  exact congrArg (fun heap : Heap => { world with heap })
    (Heap.veil_setPayload seen.2 payload).symm

theorem push {id : Identity} (seen : world.heap.InView concealed id)
    (held : value.InView concealed world.heap) :
    world.BlindStep concealed fun world =>
      .ok (.bool (world.push id value).1, (world.push id value).2) := by
  have same : (world.veil concealed).heap.payload id = world.heap.payload id :=
    Heap.payload_veil seen.2
  have contents := closed.heap.payload id seen.2
  cases kept : world.heap.payload id with
  | list items =>
      rw [kept, Payload.inView_list] at contents
      have appended := Payload.inView_list.mpr
        (List.forall_mem_append.mpr ⟨contents, List.forall_mem_singleton.mpr held⟩)
      have step := closed.setContents seen appended (.bool true) (inView_bool true)
      exact step.congr (by simp only [World.push, same, kept]) (by simp only [World.push, kept])
  | _ =>
      have step : world.BlindStep concealed fun world => .ok (.bool false, world) :=
        closed.reply rfl (inView_bool false)
      exact step.congr (by simp only [World.push, same, kept]) (by simp only [World.push, kept])

omit closed in
theorem help_veil (value : Value) : (world.veil concealed).help value = world.help value := by
  induction value with
  | boundMethod receiver method _ ih => exact ih
  | _ => rfl

theorem performValues (op : ValueOp)
    (held : ∀ operand ∈ operands, operand.InView concealed world.heap) :
    world.BlindStep concealed fun world => op.perform world operands := by
  unfold ValueOp.perform
  split
  · next value =>
      exact closed.reply (congrArg Value.str (Value.repr_veil closed.heap (held value (by simp))))
        (inView_str _)
  · next value =>
      exact closed.reply
        (congrArg Value.str (Value.display_veil closed.heap (held value (by simp)))) (inView_str _)
  · next value =>
      exact closed.reply (congrArg Value.str (Value.repr_veil closed.heap (held value (by simp))))
        (inView_str _)
  · exact closed.reply rfl (inView_bool _)
  · next value =>
      exact closed.reply (congrArg Value.bool (Heap.isTruthy_veil (held value (by simp))))
        (inView_bool _)
  · exact closed.reply (congrArg Value.ofText (help_veil _)) (inView_ofText _)
  · next target key =>
      exact (closed.expectMapping (held target (by simp))).bind fun found so =>
        closed.reply rfl (inView_ofOption.mpr (so.1.get? key))
  · next target key value =>
      refine (closed.expectMapping (held target (by simp))).bind fun found so => ?_
      have inserted := so.1.insert (held key (by simp)) (held value (by simp))
      exact closed.setContents so.2 (Payload.inView_mapping.mpr inserted) .none inView_none
  · next target key =>
      exact (closed.expectMapping (held target (by simp))).bind fun _ _ =>
        closed.reply rfl (inView_bool _)
  · next target key =>
      refine (closed.expectMapping (held target (by simp))).bind fun found so => ?_
      have taken := so.1.get? key
      rw [← Mapping.remove_fst] at taken
      exact closed.setContents so.2 (Payload.inView_mapping.mpr (so.1.remove key)) _
        (inView_ofOption.mpr taken)
  · next target =>
      exact (closed.expectMapping (held target (by simp))).bind fun _ _ =>
        closed.reply rfl (inView_ofNat _)
  · next target =>
      exact (closed.expectMapping (held target (by simp))).bind fun _ _ =>
        closed.reply rfl (inView_bool _)
  · next target item =>
      exact (expectObject (held target (by simp))).bind fun id seen =>
        closed.push seen (held item (by simp))
  · next target index =>
      have seen := held target (by simp)
      refine (expectObject seen).bind fun id visible => ?_
      split
      · refine closed.reply ?_ (inView_ofOption.mpr fun found same => ?_)
        · simp only [World.veil, Heap.list?_veil seen]
        · have listed : found ∈ (world.heap.list? target).getD [] := by
            split at same
            · cases same
            · exact List.mem_of_getElem? same
          cases items : world.heap.list? target with
          | none => simp [items] at listed
          | some all =>
              rw [items] at listed
              exact closed.heap.list seen items found listed
      · exact .refuses rfl
  · next target =>
      have seen := held target (by simp)
      refine (expectObject seen).bind fun id visible =>
        closed.reply ?_ (inView_ofOption.mpr ?_)
      · simp only [World.veil, Heap.list?_veil seen]
      · intro found same
        obtain ⟨items, listed, rfl⟩ := Option.map_eq_some_iff.mp same
        exact inView_tuple.mpr (closed.heap.list seen listed)
  · next target =>
      have seen := held target (by simp)
      refine (expectObject seen).bind fun id visible => closed.reply ?_ (by simp)
      simp only [World.veil, Heap.length?_veil seen]
  · exact .refuses rfl

theorem load {frame : Frame} (locals : frame.locals.Every (Value.InView concealed world.heap)) :
    ∀ found ∈ frame.load world.globals name, found.InView concealed world.heap := by
  intro found same
  rw [Option.mem_def, Frame.load] at same
  split at same
  · exact closed.globals name found same
  · split at same
    · next bound =>
        cases same
        exact locals name found bound
    · exact closed.globals name found same

theorem loadName {frame : Frame}
    (locals : frame.locals.Every (Value.InView concealed world.heap)) :
    world.BlindLook concealed fun world => world.loadName frame name := by
  refine .look rfl (fun found got => ?_) fun error refused => ?_
  · unfold World.loadName Frame.resolve at got
    split at got
    · next loaded =>
        cases got
        exact closed.load locals _ loaded
    · split at got
      · next known =>
          cases got
          exact closed.builtins name _ known
      · cases got
  · unfold World.loadName Frame.resolve at refused
    split at refused
    · cases refused
    · split at refused
      · cases refused
      · cases refused
        exact Error.inView_ofCause _

theorem storeName {frame : Frame}
    (locals : frame.locals.Every (Value.InView concealed world.heap)) (name : Name)
    (held : value.InView concealed world.heap) :
    let stored := frame.store world.globals name value
    stored.1.locals.Every (Value.InView concealed world.heap) ∧
      { world with globals := stored.2 : World }.Closed concealed := by
  unfold Frame.store
  split
  · exact ⟨locals, closed.withGlobals (closed.globals.set name held)⟩
  · exact ⟨locals.set name held, closed⟩

theorem unbindName {frame : Frame}
    (locals : frame.locals.Every (Value.InView concealed world.heap)) (name : Name) :
    let unbound := frame.delete world.globals name
    (∀ old ∈ unbound.1, old.InView concealed world.heap) ∧
      unbound.2.1.locals.Every (Value.InView concealed world.heap) ∧
      { world with globals := unbound.2.2 : World }.Closed concealed := by
  unfold Frame.delete
  split
  · exact ⟨closed.globals name, locals, closed.withGlobals (closed.globals.erase name)⟩
  · exact ⟨locals name, locals.erase name, closed⟩

theorem performNames {frame : Frame} (op : NameOp)
    (locals : frame.locals.Every (Value.InView concealed world.heap))
    (held : ∀ operand ∈ operands, operand.InView concealed world.heap) :
    world.BlindStepIn concealed fun world => op.perform frame world operands := by
  have reply {value : World → Value} (same : value (world.veil concealed) = value world)
      (so : (value world).InView concealed world.heap) :
      world.BlindStepIn concealed fun world => .ok (value world, frame, world) :=
    .give (Prod.ext same rfl) ⟨closed.yields so, locals⟩
  unfold NameOp.perform
  split
  · exact (closed.loadName locals).bind fun _ found => reply rfl found
  · exact reply rfl (inView_ofOption.mpr (closed.load locals))
  · next name value =>
      have seen := held value (by simp)
      obtain ⟨kept, after⟩ := closed.storeName locals name seen
      exact .give rfl ⟨⟨after, .refl _, seen⟩, kept⟩
  · exact .give rfl ⟨closed.yields inView_none, locals⟩
  · exact reply rfl (inView_bool _)
  · next name =>
      obtain ⟨old, kept, after⟩ := closed.unbindName locals name
      exact .give rfl ⟨⟨after, .refl _, inView_ofOption.mpr old⟩, kept⟩
  · exact reply rfl (inView_ofOption.mpr (locals _))
  · exact reply rfl (inView_ofNat _)
  · exact reply rfl (inView_str _)
  · exact reply rfl (inView_ofOption.mpr (closed.globals _))
  · next name value =>
      have seen := held value (by simp)
      exact .give rfl
        ⟨⟨closed.withGlobals (closed.globals.set name seen), .refl _, seen⟩, locals⟩
  · exact reply rfl (inView_bool _)
  · next name =>
      exact .give rfl ⟨⟨closed.withGlobals (closed.globals.erase name), .refl _,
        inView_ofOption.mpr (closed.globals name)⟩, locals⟩
  · exact reply rfl (inView_ofNat _)
  · exact reply rfl (inView_ofOption.mpr (closed.builtins _))
  · next name value =>
      have seen := held value (by simp)
      exact .give rfl
        ⟨⟨closed.withBuiltins (closed.builtins.set name seen), .refl _, seen⟩, locals⟩
  · exact .refuses rfl

/-! ## Errors raised by programs -/

theorem raise_veil (type : TypeId) (held : value.InView concealed world.heap) :
    (world.veil concealed).raise type value = world.raise type value := by
  have raised : Error.raised (world.veil concealed).names (world.veil concealed).heap type value =
      .raised world.names world.heap type value :=
    Error.raised_veil closed.heap type held
  rw [World.raise, raised, World.raise]
  rfl

omit closed in
theorem raise (type : TypeId) (held : value.InView concealed world.heap) :
    (world.raise type value).InView concealed world.heap := by
  unfold World.raise
  split
  · exact held
  · exact Error.inView_ofCause _

theorem raiseValue_veil : (world.veil concealed).raiseValue value = world.raiseValue value := by
  cases value with
  | type type => exact closed.raise_veil type inView_none
  | _ => rfl

omit closed in
theorem raiseValue (held : value.InView concealed world.heap) :
    (world.raiseValue value).InView concealed world.heap := by
  unfold World.raiseValue
  split
  · exact raise _ inView_none
  · split
    · next made => exact inView_of_asError held made
    · exact Error.inView_ofCause _

end World.Closed

/-! ## Operations of a machine -/

theorem Error.inView_inspect {concealed : Identity → Bool} {heap : Heap} {error : Error}
    (held : error.InView concealed heap) : error.inspect.InView concealed heap := by
  simp [Error.inspect, held]

/-- The world is closed, and the errors being handled are in view. -/
structure Machine.Closed (concealed : Identity → Bool) (machine : Machine) : Prop where
  world : machine.world.Closed concealed
  handling : ∀ error ∈ machine.handling, error.InView concealed machine.world.heap

/-- The machine with what its heap records about concealed identities taken away. -/
def Machine.veil (concealed : Identity → Bool) (machine : Machine) : Machine :=
  { machine with world := machine.world.veil concealed }

namespace Machine.Closed

variable {concealed : Identity → Bool} {machine : Machine} (closed : machine.Closed concealed)
  {operands : List Value}

include closed

theorem withWorld {world : World} (keeps : machine.world.heap.Keeps world.heap)
    (held : world.Closed concealed) : { machine with world : Machine }.Closed concealed :=
  ⟨held, fun error member => (closed.handling error member).mono keeps⟩

theorem reraise : machine.reraise.InView concealed machine.world.heap := by
  unfold Machine.reraise Machine.current?
  cases handled : machine.handling with
  | nil => exact Error.inView_ofCause _
  | cons error rest => exact closed.handling error (handled ▸ List.mem_cons_self)

theorem performErrors (op : ErrorOp)
    (held : ∀ operand ∈ operands, operand.InView concealed machine.world.heap) :
    machine.world.BlindStep concealed fun world =>
      op.perform { machine with world } operands := by
  have failed (message : Option Value)
      (so : ∀ value ∈ message, value.InView concealed machine.world.heap) (holds : Bool) :
      machine.world.BlindStep concealed fun world => ErrorOp.assertThat world holds message := by
    refine .ite Iff.rfl (fun _ => closed.world.reply rfl inView_none) fun _ => .refuse ?_ ?_
    · exact Error.assertionFailed_veil closed.world.heap so
    · exact inView_ofOption.mpr so
  unfold ErrorOp.perform
  split
  · exact .refuse closed.world.raiseValue_veil (World.Closed.raiseValue (held _ (by simp)))
  · next payload =>
      have seen := held payload (by simp)
      exact (World.Closed.resolveRef _).bind fun type _ =>
        .refuse (closed.world.raise_veil type seen) (World.Closed.raise type seen)
  · exact .refuse rfl closed.reraise
  · exact failed none nofun _
  · next message => exact failed (some message) (by simpa using held) _
  · simp only [Machine.current?]
    split
    · next error handled =>
        exact closed.world.newError rfl (closed.handling error (List.mem_of_mem_head? handled))
    · exact closed.world.reply rfl inView_none
  · exact closed.world.reply rfl (inView_ofNat _)
  · exact closed.world.reply rfl (inView_ofNat _)
  · exact closed.world.reply rfl (by simp)
  · exact closed.world.reply rfl (inView_ofNames _)
  · next value =>
      split
      · next error made =>
          exact closed.world.reply rfl
            (Error.inView_inspect (inView_of_asError (held value (by simp)) made))
      · exact .refuses rfl
  · exact closed.world.reply rfl (inView_str _)
  · exact .refuses rfl

/-- Every operation that may be performed. -/
theorem perform {frame : Frame}
    (locals : frame.locals.Every (Value.InView concealed machine.world.heap)) (op : Operation)
    (held : ∀ operand ∈ operands, operand.InView concealed machine.world.heap) :
    machine.world.BlindStepIn concealed fun world =>
      op.perform { machine with world } frame operands := by
  have inFrame {step : World → Except Error (Value × World)}
      (blind : machine.world.BlindStep concealed step) :
      machine.world.BlindStepIn concealed fun world =>
        (step world).map fun made => (made.1, frame, made.2) :=
    blind.map (fun _ => rfl) fun _ yields =>
      ⟨yields, locals.mono fun _ so => so.mono yields.keeps⟩
  cases op with
  | attributes op => exact inFrame (closed.world.performAttributes op held)
  | make op => exact inFrame (closed.world.performMake op held)
  | names op => exact closed.world.performNames op locals held
  | errors op => exact inFrame (closed.performErrors op held)
  | types op => exact inFrame (closed.world.performTypes op held)
  | values op => exact inFrame (closed.world.performValues op held)

end Machine.Closed

end ScriptCore
