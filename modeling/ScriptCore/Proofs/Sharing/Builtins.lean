import ScriptCore.Proofs.Binding.ClosedForm
import ScriptCore.Proofs.Errors.Builtins
import ScriptCore.Proofs.Sharing.Operations

/-!
# Blind built-in functions

The functions that never call back, conversions, the binding of arguments and the
definition of functions do under the veil what they do without it.
-/

namespace ScriptCore

namespace World.Closed

variable {concealed : Identity → Bool} {world : World} (closed : world.Closed concealed)
  {target value : Value} {arguments : List Value}

/-! ## Numbers -/

theorem expectType (type : TypeId) :
    world.Blind concealed id (fun _ => True) fun world => world.expectType value type :=
  .ite Iff.rfl (fun _ => .give rfl trivial) fun _ => .refuses rfl

/-- Go on if a value is of the right type. -/
theorem checked {α : Type} {veil : α → α} {holds : α → Prop} (type : TypeId)
    {next : World → Except Error α} (further : world.Blind concealed veil holds next) :
    world.Blind concealed veil holds fun world =>
      match world.expectType value type with
      | .error error => .error error
      | .ok () => next world := by
  have bound (world : World) : (match world.expectType value type with
      | .error error => .error error
      | .ok () => next world) = world.expectType value type >>= fun _ => next world := by
    cases world.expectType value type <;> rfl
  exact ((expectType type).bind fun _ _ => further).congr (bound _) (bound _)

theorem exact (operation : String) (result : Option Int64) :
    world.BlindLook concealed fun _ => Arithmetic.exact operation result := by
  cases result with
  | some n => exact .give rfl (inView_int n)
  | none => exact .refuses rfl

theorem operands (kind : NumberKind) (left right : Value) :
    world.Blind concealed id (fun _ => True) fun world =>
      Arithmetic.operands world kind left right := by
  unfold Arithmetic.operands
  refine checked _ ?_
  split
  · exact .give rfl trivial
  · split
    · exact .give rfl trivial
    · exact .refuses rfl
    · exact .refuses rfl

theorem runNumber (kind : NumberKind) (operation : Arithmetic) :
    world.BlindLook concealed fun world => operation.run world kind arguments := by
  have compute (name : String) (integers : Int64 → Int64 → Option Int64)
      (floats : Float → Float → Float) (left right : Value) :
      world.BlindLook concealed fun world => (Arithmetic.operands world kind left right).bind
        (Arithmetic.compute name integers floats) := by
    refine (operands kind left right).bind fun numbers _ => ?_
    cases numbers with
    | integers a b => exact exact name _
    | floats a b => exact .give rfl (inView_float _)
  unfold Arithmetic.run
  split
  · exact compute _ _ _ _ _
  · exact compute _ _ _ _ _
  · exact compute _ _ _ _ _
  · exact (expectType _).map (fun _ => rfl) fun _ _ => inView_bool _
  · refine checked _ ?_
    split
    · exact exact _ _
    · exact .give rfl (inView_float _)
    · exact .refuses rfl
  · exact .refuses rfl

/-! ## Containers -/

theorem placeOf (index : Value) (length : Nat) :
    world.Blind concealed id (fun _ => True) fun world => world.placeOf index length := by
  unfold World.placeOf
  split
  · split
    · exact .give rfl trivial
    · exact .refuses rfl
  · exact .refuses rfl

theorem expectTuple (seen : value.InView concealed world.heap) :
    world.Blind concealed id (fun items => ∀ item ∈ items, item.InView concealed world.heap)
      fun world => world.expectTuple value := by
  cases value with
  | tuple items => exact .give rfl (inView_tuple.mp seen)
  | _ => exact .refuses rfl

theorem containerLength (seen : value.InView concealed world.heap) :
    world.BlindLook concealed fun world => world.containerLength value := by
  have same : (world.veil concealed).heap.length? value = world.heap.length? value :=
    Heap.length?_veil seen
  cases length : world.heap.length? value with
  | some n =>
      have given : world.BlindLook concealed fun _ => .ok (.ofNat n) := .give rfl (inView_ofNat n)
      exact given.congr (by rw [World.containerLength, same, length])
        (by rw [World.containerLength, length])
  | none =>
      have refused : world.BlindLook concealed fun world => .error (world.mismatch "dict" value) :=
        .refuses rfl
      exact refused.congr (by rw [World.containerLength, same, length])
        (by rw [World.containerLength, length])

include closed

theorem expectList (seen : value.InView concealed world.heap) :
    world.Blind concealed id (fun found => (∀ item ∈ found.2, item.InView concealed world.heap) ∧
      world.heap.InView concealed found.1) fun world => world.expectList value := by
  unfold World.expectList
  refine checked _ (.look ?_ (fun found got => ?_) fun error refused => ?_)
  · simp only [World.veil, Heap.list?_veil seen]
    rfl
  · split at got
    · next kept =>
        cases got
        exact ⟨closed.heap.list seen kept, inView_object.mp seen⟩
    · cases got
  · split at refused
    · cases refused
    · cases refused
      exact Error.inView_ofCause _

theorem runDict (method : DictMethod)
    (held : ∀ argument ∈ arguments, argument.InView concealed world.heap) :
    world.BlindStep concealed fun world => method.run world arguments := by
  unfold DictMethod.run
  split
  · next receiver key =>
      refine (closed.expectMapping (held receiver (by simp))).bind fun ⟨id, mapping⟩ so => ?_
      have seen := held key (by simp)
      cases stored : mapping.get? key with
      | none =>
          simp only [stored]
          exact .refuse (Error.keyNotFound_veil closed.heap seen) seen
      | some value =>
          simp only [stored]
          exact closed.reply rfl (so.1.get? key value stored)
  · next receiver key value =>
      refine (closed.expectMapping (held receiver (by simp))).bind fun found so => ?_
      have inserted := so.1.insert (held key (by simp)) (held value (by simp))
      exact closed.setContents so.2 (Payload.inView_mapping.mpr inserted) .none inView_none
  · next receiver key =>
      exact (closed.expectMapping (held receiver (by simp))).bind fun _ _ =>
        closed.reply rfl (inView_bool _)
  · next receiver =>
      exact (containerLength (held receiver (by simp))).bind fun _ so => closed.reply rfl so
  · next receiver key =>
      exact (closed.expectMapping (held receiver (by simp))).bind fun found so =>
        closed.reply rfl (inView_ofOption.mpr (so.1.get? key))
  · next receiver key fallback =>
      refine (closed.expectMapping (held receiver (by simp))).bind fun found so =>
        closed.reply rfl ?_
      cases stored : found.2.get? key with
      | none => exact held fallback (by simp)
      | some value => exact so.1.get? key value stored
  · exact .refuses rfl

theorem runList (method : ListMethod)
    (held : ∀ argument ∈ arguments, argument.InView concealed world.heap) :
    world.BlindStep concealed fun world => method.run world arguments := by
  unfold ListMethod.run
  split
  · next receiver item =>
      refine (closed.expectList (held receiver (by simp))).bind fun found so => ?_
      have appended := List.forall_mem_append.mpr
        ⟨so.1, List.forall_mem_singleton.mpr (held item (by simp))⟩
      exact closed.setContents so.2 (Payload.inView_list.mpr appended) .none inView_none
  · next receiver index =>
      refine (closed.expectList (held receiver (by simp))).bind fun found so => ?_
      refine (placeOf index found.2.length).bind fun place _ => ?_
      cases stored : found.2[place.val]? with
      | some item => exact closed.reply rfl (so.1 item (List.mem_of_getElem? stored))
      | none => exact .refuses rfl
  · next receiver =>
      exact (containerLength (held receiver (by simp))).bind fun _ so => closed.reply rfl so
  · exact .refuses rfl

omit closed in
theorem runTuple (method : TupleMethod)
    (held : ∀ argument ∈ arguments, argument.InView concealed world.heap) :
    world.BlindLook concealed fun world => method.run world arguments := by
  unfold TupleMethod.run
  split
  · next receiver index =>
      exact (expectTuple (held receiver (by simp))).bind fun items so =>
        (placeOf index items.length).bind fun place _ =>
          .give rfl (so _ (List.getElem_mem place.isLt))
  · next receiver =>
      exact (expectTuple (held receiver (by simp))).bind fun _ _ => .give rfl (inView_ofNat _)
  · exact .refuses rfl

/-! ## Introspection -/

omit closed in
theorem attributeName :
    world.Blind concealed id (fun _ => True) fun world => world.attributeName value := by
  cases value with
  | str name => exact .give rfl trivial
  | _ => exact .refuses rfl

omit closed in
theorem isInstanceOf {candidate : Value} :
    world.Blind concealed id (fun _ => True) fun world => world.isInstanceOf value candidate := by
  cases candidate with
  | type type => exact .give rfl trivial
  | _ => exact .refuses rfl

omit closed in
theorem isInstanceOfAny (candidates : List Value) :
    world.Blind concealed id (fun _ => True) fun world =>
      world.isInstanceOfAny value candidates := by
  induction candidates with
  | nil => exact .give rfl trivial
  | cons candidate rest ih =>
      have asked (world : World) : world.isInstanceOfAny value (candidate :: rest) =
          world.isInstanceOf value candidate >>= fun found =>
            if found = true then .ok true else world.isInstanceOfAny value rest := by
        rw [World.isInstanceOfAny]
        cases world.isInstanceOf value candidate with
        | error error => rfl
        | ok found => cases found <;> rfl
      have bound : world.Blind concealed id (fun _ => True) fun world =>
          world.isInstanceOf value candidate >>= fun found =>
            if found = true then .ok true else world.isInstanceOfAny value rest :=
        isInstanceOf.bind fun _ _ => .ite Iff.rfl (fun _ => .give rfl trivial) fun _ => ih
      exact bound.congr (asked _) (asked _)

theorem runIntrospection (function : Introspection)
    (held : ∀ argument ∈ arguments, argument.InView concealed world.heap) :
    world.BlindStep concealed fun world => function.run world arguments := by
  unfold Introspection.run
  split
  · exact (isInstanceOfAny _).bind fun _ _ => closed.reply rfl (inView_bool _)
  · exact isInstanceOf.bind fun _ _ => closed.reply rfl (inView_bool _)
  · next value name =>
      exact attributeName.bind fun _ _ =>
        (closed.getAttribute (held value (by simp))).bind fun _ found => closed.reply rfl found
  · next value name fallback =>
      have seen := held value (by simp)
      exact attributeName.bind fun _ _ => closed.reply (getAttributeOr_veil seen fallback)
        (closed.getAttributeOr seen (held fallback (by simp)))
  · next target name value =>
      exact attributeName.bind fun _ _ =>
        (closed.setAttribute (held target (by simp)) (held value (by simp))).bindPure
          (fun _ => rfl) fun _ yields => yields
  · next value name =>
      exact attributeName.bind fun _ _ => closed.reply
        (congrArg Value.bool (hasAttribute_veil (held value (by simp)))) (inView_bool _)
  · next target name =>
      exact attributeName.bind fun _ _ =>
        (closed.deleteAttribute (held target (by simp))).bindPure (fun _ => rfl)
          fun _ yields => yields
  · exact closed.reply (congrArg Value.ofText (help_veil _)) (inView_ofText _)
  · exact .refuses rfl

theorem runSimple (builtin : Builtin)
    (held : ∀ argument ∈ arguments, argument.InView concealed world.heap) :
    world.BlindStep concealed fun world => builtin.runSimple world arguments := by
  cases builtin with
  | number kind operation => exact closed.replyMap (runNumber kind operation)
  | dict method => exact closed.runDict method held
  | list method => exact closed.runList method held
  | tuple method => exact closed.replyMap (runTuple method held)
  | introspection function => exact closed.runIntrospection function held
  | length | sum | collect => exact closed.reply rfl (inView_tuple.mpr held)

/-! ## Conversion -/

/-- The items of a sequence, or an error that says what was expected. -/
theorem sequenceOr (expected : World → Name)
    (same : expected (world.veil concealed) = expected world)
    (seen : value.InView concealed world.heap) :
    world.Blind concealed id (fun items => ∀ item ∈ items, item.InView concealed world.heap)
      fun world => match world.heap.sequence? value with
        | some items => .ok items
        | none => .error (world.mismatch (expected world) value) := by
  have under : (world.veil concealed).heap.sequence? value = world.heap.sequence? value :=
    Heap.sequence?_veil seen
  cases found : world.heap.sequence? value with
  | some items =>
      have given : world.Blind concealed id
          (fun items => ∀ item ∈ items, item.InView concealed world.heap) fun _ => .ok items :=
        .give rfl (closed.heap.sequence seen found)
      exact given.congr (by rw [under, found]) (by rw [found])
  | none =>
      have refused : world.Blind concealed id
          (fun items : List Value => ∀ item ∈ items, item.InView concealed world.heap)
          fun world => .error (world.mismatch (expected world) value) :=
        .refuse (by rw [same]; rfl) (Error.inView_ofCause _)
      exact refused.congr (by rw [under, found]) (by rw [found])

theorem itemsFor (type : TypeId) (seen : value.InView concealed world.heap) :
    world.Blind concealed id (fun items => ∀ item ∈ items, item.InView concealed world.heap)
      fun world => world.itemsFor type value :=
  closed.sequenceOr (fun world => world.types.typeName type) rfl seen

theorem emptyOf (type : TypeId) :
    world.BlindStep concealed fun world => world.emptyOf type := by
  unfold World.emptyOf
  refine .ite Iff.rfl (fun _ => .refuses rfl) fun _ => ?_
  refine .ite Iff.rfl (fun _ => closed.newObject .object Payload.inView_plain) fun _ => ?_
  refine .ite Iff.rfl (fun _ => closed.reply rfl inView_none) fun _ => ?_
  refine .ite Iff.rfl (fun _ => closed.reply rfl (inView_bool _)) fun _ => ?_
  refine .ite Iff.rfl (fun _ => closed.reply rfl (inView_int _)) fun _ => ?_
  refine .ite Iff.rfl (fun _ => closed.reply rfl (inView_float _)) fun _ => ?_
  refine .ite Iff.rfl (fun _ => closed.reply rfl (inView_str _)) fun _ => ?_
  refine .ite Iff.rfl (fun _ => closed.reply rfl (inView_tuple.mpr nofun)) fun _ => ?_
  refine .ite Iff.rfl (fun _ => closed.newObject .list (Payload.inView_list.mpr nofun))
    fun _ => ?_
  refine .ite Iff.rfl (fun _ => closed.newObject .dict (Payload.inView_mapping.mpr nofun))
    fun _ => ?_
  exact .refuses rfl

/-- A copy of a dictionary has entries of its own. -/
theorem copyMapping (type : TypeId) (seen : value.InView concealed world.heap) :
    world.BlindStep concealed fun world =>
      match world.heap.mapping? value with
      | some mapping => .ok (world.allocate (world.heap.newDict (.ofPairs mapping.entries)))
      | none => .error (world.mismatch (world.types.typeName type) value) := by
  have same : (world.veil concealed).heap.mapping? value = world.heap.mapping? value :=
    Heap.mapping?_veil seen
  cases found : world.heap.mapping? value with
  | some mapping =>
      have held := Payload.inView_mapping.mpr (.ofPairs (closed.heap.mapping seen found))
      exact (closed.newObject .dict held).congr (by rw [same, found]; rfl) (by rw [found]; rfl)
  | none =>
      have refused : world.BlindStep concealed fun world =>
          .error (world.mismatch (world.types.typeName type) value) := .refuses rfl
      exact refused.congr (by rw [same, found]) (by rw [found])

theorem convertTo (type : TypeId) (seen : value.InView concealed world.heap) :
    world.BlindStep concealed fun world => world.convertTo type value := by
  unfold World.convertTo
  refine .ite Iff.rfl (fun _ => closed.reply rfl (inView_type _)) fun _ => ?_
  refine .ite Iff.rfl (fun _ => closed.reply (congrArg Value.bool (Heap.isTruthy_veil seen))
    (inView_bool _)) fun _ => ?_
  refine .ite Iff.rfl (fun _ => ?_) fun _ => .ite Iff.rfl (fun _ => ?_) fun _ => ?_
  · split
    · exact closed.reply rfl (inView_int _)
    · exact closed.reply rfl (inView_int _)
    · exact .refuses rfl
  · split
    · exact closed.reply rfl (inView_float _)
    · exact .refuses rfl
  · refine .ite Iff.rfl (fun _ => closed.reply
      (congrArg Value.str (Value.display_veil closed.heap seen)) (inView_str _)) fun _ => ?_
    refine .ite Iff.rfl (fun _ => ?_) fun _ => .ite Iff.rfl (fun _ => ?_) fun _ =>
      .ite Iff.rfl (fun _ => ?_) fun _ => ?_
    · exact (closed.itemsFor type seen).bind fun _ so => closed.reply rfl (inView_tuple.mpr so)
    · exact (closed.itemsFor type seen).bind fun _ so =>
        closed.newObject .list (Payload.inView_list.mpr so)
    · exact closed.copyMapping type seen
    · exact .ite Iff.rfl (fun _ => .refuses rfl) fun _ => .refuses rfl

theorem convert (type : TypeId)
    (held : ∀ argument ∈ arguments, argument.InView concealed world.heap) :
    world.BlindStep concealed fun world => world.convert type arguments := by
  unfold World.convert
  split
  · exact closed.emptyOf type
  · exact closed.convertTo type (held _ (by simp))
  · exact .refuses rfl

/-! ## Functions -/

/-- The shared defaults of an accepted parameter list are those that were given for it. -/
theorem defineFunction (name : Name) {parameters : List Parameter} (doc : Option String)
    (body : Expr)
    (held : ∀ p ∈ parameters, ∀ value, p.default = some (.shared value) →
      value.InView concealed world.heap) :
    world.BlindStep concealed fun world => world.defineFunction name parameters doc body := by
  unfold World.defineFunction
  split
  · exact .refuses rfl
  · next signature accepted =>
      have same := Signature.ofParameters_eq_ok_iff.mp accepted
      have seen : signature.InView concealed world.heap := by
        rw [Signature.InView, same]
        exact held
      have added := closed.addBody (.user body)
      have keeps := closed.heap.newFunction_keeps
        { name, signature, doc, body := (world.addBody (.user body)).1 }
      refine .give rfl ⟨added.withHeap keeps (added.heap.newFunction seen), keeps, ?_⟩
      exact inView_function.mpr closed.heap.fresh_inView

end World.Closed

/-! ## Arguments -/

/-- All arguments of a call are in view. -/
abbrev Arguments.InView (concealed : Identity → Bool) (heap : Heap) (arguments : Arguments) :
    Prop :=
  arguments.All (Value.InView concealed heap)

theorem Arguments.InView.mono {concealed : Identity → Bool} {heap later : Heap}
    {arguments : Arguments} (keeps : heap.Keeps later) (seen : arguments.InView concealed heap) :
    arguments.InView concealed later :=
  seen.imp fun _ held => held.mono keeps

/--
Making something on a heap is blind to what is concealed: the heap stays closed, and what
is made has the property.
-/
structure Heap.BlindMake {α : Type} (concealed : Identity → Bool) (heap : Heap)
    (holds : Heap → α → Prop) (make : Heap → α × Heap) : Prop where
  same : make (heap.veil concealed) = Prod.map id (Heap.veil concealed) (make heap)
  closed : (make heap).2.Closed concealed
  keeps : heap.Keeps (make heap).2
  value : holds (make heap).2 (make heap).1

/-- What is made of something that was made before sees no more than that. -/
theorem Heap.BlindMake.bind {α β : Type} {concealed : Identity → Bool} {heap : Heap}
    {holds : Heap → α → Prop} {gives : Heap → β → Prop} {make : Heap → α × Heap}
    (first : heap.BlindMake concealed holds make) (next : α → Heap → β × Heap)
    (second : (make heap).2.BlindMake concealed gives (next (make heap).1)) :
    heap.BlindMake concealed gives fun heap => next (make heap).1 (make heap).2 where
  same := by simp only [first.same, Prod.map, id, second.same]
  closed := second.closed
  keeps := first.keeps.trans second.keeps
  value := second.value

namespace Binding

variable {concealed : Identity → Bool} {heap : Heap} {keywords : Pool}

/-- All bound values are in view. -/
def SlotsInView (concealed : Identity → Bool) (heap : Heap) (slots : List (Name × Value)) : Prop :=
  ∀ slot ∈ slots, slot.2.InView concealed heap

theorem SlotsInView.mono {later : Heap} {slots : List (Name × Value)} (keeps : heap.Keeps later)
    (seen : SlotsInView concealed heap slots) : SlotsInView concealed later slots :=
  fun slot member => (seen slot member).mono keeps

theorem blindMake_none (closed : heap.Closed concealed) {value : Value}
    (seen : value.InView concealed heap) :
    heap.BlindMake concealed (Value.InView concealed)
      fun heap => (value, heap) :=
  ⟨rfl, closed, .refl _, seen⟩

theorem blindMake_object (closed : heap.Closed concealed) (type : TypeId) {payload : Payload}
    (seen : payload.InView concealed heap) :
    heap.BlindMake concealed (Value.InView concealed)
      fun heap => heap.newObject type payload :=
  ⟨Heap.veil_newObject closed type payload, closed.newObject type seen,
    .newObject heap type payload, inView_object.mpr closed.fresh_inView⟩

mutual

theorem blindMake_recipe {heap : Heap} : ∀ recipe : Recipe, heap.Closed concealed →
    heap.BlindMake concealed (Value.InView concealed) recipe.make
  | .literal written, closed => blindMake_none closed (inView_literal written)
  | .plain type, closed => blindMake_object closed type nofun
  | .tuple items, closed => by
      have made := blindMake_recipes items closed
      exact made.bind (fun values heap => (Value.tuple values, heap))
        (blindMake_none made.closed (inView_tuple.mpr made.value))
  | .list items, closed => by
      have made := blindMake_recipes items closed
      exact made.bind (fun values heap => heap.newList values)
        (blindMake_object made.closed .list (Payload.inView_list.mpr made.value))
  | .dict keys recipes, closed => by
      have made := blindMake_recipes recipes closed
      have entries : (Mapping.ofPairs ((keys.map Literal.value).zip
          (Recipe.makeAll recipes heap).1)).InView concealed (Recipe.makeAll recipes heap).2 := by
        refine .ofPairs fun pair member => ?_
        obtain ⟨key, value⟩ := List.of_mem_zip member
        obtain ⟨written, _, same⟩ := List.mem_map.mp key
        exact ⟨same ▸ inView_literal written, made.value _ value⟩
      exact made.bind
        (fun values heap => heap.newDict (.ofPairs ((keys.map Literal.value).zip values)))
        (blindMake_object made.closed .dict (Payload.inView_mapping.mpr entries))

theorem blindMake_recipes {heap : Heap} : ∀ recipes : List Recipe, heap.Closed concealed →
    heap.BlindMake concealed (fun heap values => ∀ value ∈ values, value.InView concealed heap)
      (Recipe.makeAll recipes)
  | [], closed => ⟨rfl, closed, .refl _, nofun⟩
  | recipe :: rest, closed => by
      have first := blindMake_recipe recipe closed
      have later := blindMake_recipes rest first.closed
      refine ⟨?_, later.closed, first.keeps.trans later.keeps, ?_⟩
      · simp only [Recipe.makeAll, first.same, Prod.map, id, later.same]
      · exact List.forall_mem_cons.mpr ⟨first.value.mono later.keeps, later.value⟩

end

theorem blindMake_default (closed : heap.Closed concealed) {default : Default}
    (shared : ∀ value, default = .shared value → value.InView concealed heap) :
    heap.BlindMake concealed (Value.InView concealed) default.produce := by
  cases default with
  | shared value => exact blindMake_none closed (shared value rfl)
  | fresh recipe => exact blindMake_recipe recipe closed

theorem blindMake_supply (closed : heap.Closed concealed)
    (held : ∀ keyword ∈ keywords, keyword.2.InView concealed heap) {p : Parameter}
    (shared : ∀ value, p.default = some (.shared value) → value.InView concealed heap) :
    heap.BlindMake concealed (Value.InView concealed)
      (supply keywords p) := by
  unfold supply
  cases found : Table.lookup p.name keywords with
  | some value =>
      exact blindMake_none closed (held _ (Table.mem_of_lookup found))
  | none =>
      cases declared : p.default with
      | none => exact blindMake_none closed inView_none
      | some default =>
          exact blindMake_default closed fun value same =>
            shared value (declared.trans (congrArg some same))

theorem blindMake_supplyAll {parameters : List Parameter} (closed : heap.Closed concealed)
    (held : ∀ keyword ∈ keywords, keyword.2.InView concealed heap)
    (shared : ∀ p ∈ parameters, ∀ value, p.default = some (.shared value) →
      value.InView concealed heap) :
    heap.BlindMake concealed (SlotsInView concealed) (supplyAll keywords parameters) := by
  induction parameters generalizing heap with
  | nil => exact ⟨rfl, closed, .refl _, List.forall_mem_nil _⟩
  | cons p rest ih =>
      rw [List.forall_mem_cons] at shared
      have first := blindMake_supply closed held shared.1
      have later := ih first.closed (fun keyword member => (held keyword member).mono first.keeps)
        fun q member value same => (shared.2 q member value same).mono first.keeps
      refine ⟨?_, later.closed, first.keeps.trans later.keeps, ?_⟩
      · simp only [supplyAll, first.same, Prod.map, id, later.same]
      · exact List.forall_mem_cons.mpr ⟨first.value.mono later.keeps, later.value⟩

theorem inView_collected (held : ∀ keyword ∈ keywords, keyword.2.InView concealed heap) :
    (collected keywords).InView concealed heap := by
  refine .ofPairs fun pair member => ?_
  obtain ⟨keyword, listed, rfl⟩ := List.mem_map.mp member
  exact ⟨inView_str _, held keyword listed⟩

theorem blindMake_collectKeywords (collector : Option Parameter) (closed : heap.Closed concealed)
    (held : ∀ keyword ∈ keywords, keyword.2.InView concealed heap) :
    heap.BlindMake concealed (SlotsInView concealed) (collectKeywords collector keywords) := by
  cases collector with
  | none => exact ⟨rfl, closed, .refl _, List.forall_mem_nil _⟩
  | some p =>
      have made := blindMake_object closed .dict
        (Payload.inView_mapping.mpr (inView_collected held))
      refine ⟨?_, made.closed, made.keeps, List.forall_mem_singleton.mpr made.value⟩
      have same := made.same
      simp only [collectKeywords, Heap.newDict, same]
      rfl

theorem blindMake_bound {s : Signature} {a : Arguments} (closed : heap.Closed concealed)
    (shared : s.InView concealed heap) (held : a.InView concealed heap) :
    heap.BlindMake concealed (SlotsInView concealed) (bound s a) := by
  have declared (p : Parameter) (member : p ∈ requested s a) (value : Value)
      (same : p.default = some (.shared value)) : value.InView concealed heap :=
    shared p (requested_sublist.subset member) value same
  have late := blindMake_supplyAll closed held.keywords fun p member =>
    declared p (List.mem_append_left _ member)
  have only := blindMake_supplyAll late.closed
    (fun keyword member => (held.keywords keyword member).mono late.keeps)
    fun p member value same =>
      (declared p (List.mem_append_right _ member) value same).mono late.keeps
  have both := late.keeps.trans only.keeps
  have left (keyword) (member : keyword ∈ leftover (requested s a) a.keywords) :=
    (held.keywords keyword (List.mem_filter.mp member).1).mono both
  have rest := blindMake_collectKeywords s.keywordCollector? only.closed left
  have all := both.trans rest.keeps
  refine ⟨?_, rest.closed, all, ?_⟩
  · simp only [bound, late.same, Prod.map, id, only.same, rest.same]
  · simp only [bound, SlotsInView, List.forall_mem_append]
    refine ⟨⟨⟨⟨?_, ?_⟩, ?_⟩, ?_⟩, rest.value⟩
    · exact fun slot member =>
        (held.positional _ (List.mem_of_mem_take (List.of_mem_zip member).2)).mono all
    · exact late.value.mono (only.keeps.trans rest.keeps)
    · intro slot member
      obtain ⟨p, _, rfl⟩ := List.mem_map.mp member
      exact inView_tuple.mpr fun item listed =>
        (held.positional item (List.mem_of_mem_drop listed)).mono all
    · exact only.value.mono rest.keeps

end Binding

/-- The binder reads of the world only the heap, and of the heap only what comes next. -/
theorem Machine.bindArguments_eq (function : FunctionDef) (arguments : Arguments) (world : World) :
    bindArguments function arguments world =
      match Binding.fault function.name function.signature arguments with
      | some cause => .error (.ofCause cause)
      | none => .ok (⟨(Binding.bound function.signature arguments world.heap).1⟩,
          { world with heap := (Binding.bound function.signature arguments world.heap).2 }) := by
  rw [bindArguments, Binding.bind_eq]
  cases Binding.fault function.name function.signature arguments <;> rfl

/-- What binding the arguments of a call makes of a world. -/
structure World.Binds (concealed : Identity → Bool) (before : World) (made : Bindings × World) :
    Prop where
  world : made.2.Closed concealed
  keeps : before.heap.Keeps made.2.heap
  slots : Binding.SlotsInView concealed made.2.heap made.1.slots

theorem World.Closed.bindArguments {concealed : Identity → Bool} {world : World}
    {function : FunctionDef} {arguments : Arguments} (closed : world.Closed concealed)
    (shared : function.signature.InView concealed world.heap)
    (held : arguments.InView concealed world.heap) :
    world.Blind concealed (Prod.map id (World.veil concealed)) (world.Binds concealed)
      (Machine.bindArguments function arguments) := by
  have bound := Machine.bindArguments_eq function arguments
  cases faulty : Binding.fault function.name function.signature arguments with
  | some cause =>
      simp only [faulty] at bound
      have refused : world.Blind concealed (Prod.map id (World.veil concealed))
          (world.Binds concealed) fun _ => .error (.ofCause cause) := .refuses rfl
      exact refused.congr (bound _) (bound _)
  | none =>
      simp only [faulty] at bound
      have made := Binding.blindMake_bound closed.heap shared held
      refine ⟨?_, fun result given => ?_, fun error refused => ?_⟩
      · rw [bound, bound, World.veil, made.same]
        rfl
      · rw [bound] at given
        cases given
        exact ⟨closed.withHeap made.keeps made.closed, made.keeps, made.value⟩
      · rw [bound] at refused
        cases refused

end ScriptCore
