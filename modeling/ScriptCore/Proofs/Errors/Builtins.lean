import ScriptCore.Proofs.Errors.Operations
import ScriptCore.Proofs.Signature.Grammar

/-!
# Built-in functions with well-formed errors

The functions that never call back, conversions, the binding of arguments and the
definition of functions: with proper arguments all of them give proper values or errors.
-/

namespace ScriptCore

namespace World.Proper

variable {world : World} (proper : world.Proper) {target value : Value}
  {arguments : List Value}

include proper

/-! ## Numbers -/

theorem expectType (type : TypeId) :
    Answers world.types (fun _ => True) (world.expectType value type) :=
  .ite (fun _ => trivial) fun _ => proper.refuses _

theorem exact (operation : String) (result : Option Int64) :
    Answers world.types (Value.Proper world.types) (Arithmetic.exact operation result) := by
  cases result with
  | some n => exact proper_int n
  | none => exact proper.refuses _

theorem operands (kind : NumberKind) (left right : Value) :
    Answers world.types (fun _ => True) (Arithmetic.operands world kind left right) := by
  unfold Arithmetic.operands
  split
  · next refused => exact (proper.expectType _).of_error refused
  · split
    · exact trivial
    · split
      · exact trivial
      · exact proper.refuses _
      · exact proper.refuses _

theorem runNumber (kind : NumberKind) (operation : Arithmetic) :
    Answers world.types (Value.Proper world.types) (operation.run world kind arguments) := by
  have compute (name : String) (integers : Int64 → Int64 → Option Int64)
      (floats : Float → Float → Float) (left right : Value) :
      Answers world.types (Value.Proper world.types)
        ((Arithmetic.operands world kind left right).bind
          (Arithmetic.compute name integers floats)) := by
    refine (proper.operands kind left right).bind fun numbers _ => ?_
    cases numbers with
    | integers a b => exact proper.exact name _
    | floats a b => exact proper_float _
  unfold Arithmetic.run
  split
  · exact compute _ _ _ _ _
  · exact compute _ _ _ _ _
  · exact compute _ _ _ _ _
  · exact (proper.expectType _).map fun _ _ => proper_bool _
  · split
    · next refused => exact (proper.expectType _).of_error refused
    · split
      · exact proper.exact _ _
      · exact proper_float _
      · exact proper.refuses _
  · exact proper.refuses _

/-! ## Containers -/

theorem placeOf {index : Value} {length : Nat} :
    Answers world.types (fun _ => True) (world.placeOf index length) := by
  unfold World.placeOf
  split
  · split
    · exact trivial
    · exact proper.refuses _
  · exact proper.refuses _

theorem expectList :
    Answers world.types (fun found => ∀ item ∈ found.2, item.Proper world.types)
      (world.expectList value) := by
  unfold World.expectList
  split
  · next refused => exact (proper.expectType _).of_error refused
  · split
    · next found => exact proper.heap.list found
    · exact proper.refuses _

theorem expectTuple (held : value.Proper world.types) :
    Answers world.types (fun items => ∀ item ∈ items, item.Proper world.types)
      (world.expectTuple value) := by
  cases value with
  | tuple items => exact proper_tuple.mp held
  | _ => exact proper.refuses _

theorem containerLength :
    Answers world.types (Value.Proper world.types) (world.containerLength value) := by
  unfold World.containerLength
  split
  · exact proper_ofNat _
  · exact proper.refuses _

theorem runDict (method : DictMethod)
    (held : ∀ argument ∈ arguments, argument.Proper world.types) :
    Answers world.types world.Leads (method.run world arguments) := by
  unfold DictMethod.run
  split
  · next receiver key =>
      refine proper.expectMapping.bind fun ⟨id, mapping⟩ so => ?_
      cases stored : mapping.get? key with
      | none =>
          simp only [stored]
          exact .keyNotFound proper.builtin _ _ (held key (by simp))
      | some value =>
          simp only [stored]
          exact proper.leads (so.get? key value stored)
  · next receiver key value =>
      refine proper.expectMapping.bind fun found so => ?_
      have inserted := so.insert (held key (by simp)) (held value (by simp))
      exact ⟨proper.setPayload _ (Payload.proper_mapping.mpr inserted), .refl _, proper_none⟩
  · exact proper.expectMapping.bind fun _ _ => proper.leads (proper_bool _)
  · exact proper.containerLength.bind fun _ so => proper.leads so
  · next receiver key =>
      exact proper.expectMapping.bind fun found so =>
        proper.leads (proper_ofOption.mpr (so.get? key))
  · next receiver key fallback =>
      refine proper.expectMapping.bind fun found so => proper.leads ?_
      cases stored : found.2.get? key with
      | none => exact held fallback (by simp)
      | some value => exact so.get? key value stored
  · exact proper.refuses _

theorem runList (method : ListMethod)
    (held : ∀ argument ∈ arguments, argument.Proper world.types) :
    Answers world.types world.Leads (method.run world arguments) := by
  unfold ListMethod.run
  split
  · next receiver item =>
      refine proper.expectList.bind fun found so => ?_
      have appended := List.forall_mem_append.mpr
        ⟨so, List.forall_mem_singleton.mpr (held item (by simp))⟩
      exact ⟨proper.setPayload _ (Payload.proper_list.mpr appended), .refl _, proper_none⟩
  · refine proper.expectList.bind fun found so => proper.placeOf.bind fun place _ => ?_
    split
    · next stored => exact proper.leads (so _ (List.mem_of_getElem? stored))
    · exact proper.refuses _
  · exact proper.containerLength.bind fun _ so => proper.leads so
  · exact proper.refuses _

theorem runTuple (method : TupleMethod)
    (held : ∀ argument ∈ arguments, argument.Proper world.types) :
    Answers world.types (Value.Proper world.types) (method.run world arguments) := by
  unfold TupleMethod.run
  split
  · next receiver index =>
      exact (proper.expectTuple (held receiver (by simp))).bind fun items so =>
        proper.placeOf.bind fun place _ => so _ (List.getElem_mem place.isLt)
  · next receiver =>
      exact (proper.expectTuple (held receiver (by simp))).bind fun _ _ => proper_ofNat _
  · exact proper.refuses _

/-! ## Introspection -/

theorem attributeName : Answers world.types (fun _ => True) (world.attributeName value) := by
  cases value with
  | str name => exact trivial
  | _ => exact proper.refuses _

theorem isInstanceOf {candidate : Value} :
    Answers world.types (fun _ => True) (world.isInstanceOf value candidate) := by
  cases candidate with
  | type type => exact trivial
  | _ => exact proper.refuses _

theorem isInstanceOfAny (candidates : List Value) :
    Answers world.types (fun _ => True) (world.isInstanceOfAny value candidates) := by
  induction candidates with
  | nil => exact trivial
  | cons candidate rest ih =>
      unfold World.isInstanceOfAny
      split
      · next refused => exact proper.isInstanceOf.of_error refused
      · exact trivial
      · exact ih

theorem runIntrospection (function : Introspection)
    (held : ∀ argument ∈ arguments, argument.Proper world.types) :
    Answers world.types world.Leads (function.run world arguments) := by
  unfold Introspection.run
  split
  · exact (proper.isInstanceOfAny _).bind fun _ _ => proper.leads (proper_bool _)
  · exact proper.isInstanceOf.bind fun _ _ => proper.leads (proper_bool _)
  · next value name =>
      exact proper.attributeName.bind fun _ _ =>
        (proper.getAttribute (held value (by simp))).bind fun _ found => proper.leads found
  · next value name fallback =>
      exact proper.attributeName.bind fun _ _ => proper.leads
        (proper.getAttributeOr (held value (by simp)) (held fallback (by simp)))
  · next target name value =>
      exact proper.attributeName.bind fun _ _ =>
        (proper.setAttribute (held value (by simp))).bind fun _ leads => leads
  · exact proper.attributeName.bind fun _ _ => proper.leads (proper_bool _)
  · exact proper.attributeName.bind fun _ _ => proper.deleteAttribute.bind fun _ leads => leads
  · exact proper.leads (proper_ofText _)
  · exact proper.refuses _

theorem runSimple (builtin : Builtin)
    (held : ∀ argument ∈ arguments, argument.Proper world.types) :
    Answers world.types world.Leads (builtin.runSimple world arguments) := by
  cases builtin with
  | number kind operation => exact (proper.runNumber kind operation).map fun _ => proper.leads
  | dict method => exact proper.runDict method held
  | list method => exact proper.runList method held
  | tuple method => exact (proper.runTuple method held).map fun _ => proper.leads
  | introspection function => exact proper.runIntrospection function held
  | length | sum | collect => exact proper.leads (proper_tuple.mpr held)

/-! ## Conversion -/

theorem itemsFor (type : TypeId) (held : value.Proper world.types) :
    Answers world.types (fun items => ∀ item ∈ items, item.Proper world.types)
      (world.itemsFor type value) := by
  unfold World.itemsFor
  split
  · next found => exact proper.heap.sequence held found
  · exact proper.refuses _

theorem emptyOf (type : TypeId) : Answers world.types world.Leads (world.emptyOf type) := by
  unfold World.emptyOf
  refine .ite (fun _ => proper.refuses _) fun _ => ?_
  refine .ite (fun _ => proper.newObject .object Payload.proper_plain) fun _ => ?_
  refine .ite (fun _ => proper.leads proper_none) fun _ => ?_
  refine .ite (fun _ => proper.leads (proper_bool _)) fun _ => ?_
  refine .ite (fun _ => proper.leads (proper_int _)) fun _ => ?_
  refine .ite (fun _ => proper.leads (proper_float _)) fun _ => ?_
  refine .ite (fun _ => proper.leads (proper_str _)) fun _ => ?_
  refine .ite (fun _ => proper.leads (proper_tuple.mpr nofun)) fun _ => ?_
  refine .ite (fun _ => proper.newObject .list (Payload.proper_list.mpr nofun)) fun _ => ?_
  refine .ite (fun _ => proper.newObject .dict (Payload.proper_mapping.mpr nofun)) fun _ => ?_
  exact proper.refuses _

theorem convertTo (type : TypeId) (held : value.Proper world.types) :
    Answers world.types world.Leads (world.convertTo type value) := by
  unfold World.convertTo
  refine .ite (fun _ => proper.leads (proper_type _)) fun _ => ?_
  refine .ite (fun _ => proper.leads (proper_bool _)) fun _ => ?_
  refine .ite (fun _ => ?_) fun _ => .ite (fun _ => ?_) fun _ => ?_
  · split
    · exact proper.leads (proper_int _)
    · exact proper.leads (proper_int _)
    · exact proper.refuses _
  · split
    · exact proper.leads (proper_float _)
    · exact proper.refuses _
  · refine .ite (fun _ => proper.leads (proper_str _)) fun _ => ?_
    refine .ite (fun _ => ?_) fun _ => .ite (fun _ => ?_) fun _ => .ite (fun _ => ?_) fun _ => ?_
    · exact (proper.itemsFor type held).bind fun _ so => proper.leads (proper_tuple.mpr so)
    · exact (proper.itemsFor type held).bind fun _ so =>
        proper.newObject .list (Payload.proper_list.mpr so)
    · split
      · next found =>
          exact proper.newObject .dict
            (Payload.proper_mapping.mpr (.ofPairs (proper.heap.mapping found)))
      · exact proper.refuses _
    · exact .ite (fun _ => proper.refuses _) fun _ => proper.refuses _

theorem convert (type : TypeId) (held : ∀ argument ∈ arguments, argument.Proper world.types) :
    Answers world.types world.Leads (world.convert type arguments) := by
  unfold World.convert
  split
  · exact proper.emptyOf type
  · exact proper.convertTo type (held _ (by simp))
  · exact proper.refuses _

/-! ## Functions -/

/-- The shared defaults of an accepted parameter list are those that were given for it. -/
theorem defineFunction (name : Name) {parameters : List Parameter} (doc : Option String)
    (body : Expr)
    (held : ∀ p ∈ parameters, ∀ value, p.default = some (.shared value) →
      value.Proper world.types) :
    Answers world.types world.Leads (world.defineFunction name parameters doc body) := by
  unfold World.defineFunction
  split
  · exact proper.refuses _
  · next signature accepted =>
      have same := Signature.ofParameters_eq_ok_iff.mp accepted
      have added := proper.addBody (.user body)
      exact ⟨added.withHeap (added.heap.newFunction (same ▸ held)), .refl _, proper_function _⟩

end World.Proper

/-! ## Arguments -/

/-- All arguments of a call have the property. -/
structure Arguments.All (holds : Value → Prop) (arguments : Arguments) : Prop where
  positional : ∀ value ∈ arguments.positional, holds value
  keywords : ∀ keyword ∈ arguments.keywords, holds keyword.2

theorem Arguments.All.imp {holds implied : Value → Prop} {arguments : Arguments}
    (all : arguments.All holds) (implies : ∀ value, holds value → implied value) :
    arguments.All implied :=
  ⟨fun value member => implies value (all.positional value member),
    fun keyword member => implies keyword.2 (all.keywords keyword member)⟩

/-- All arguments of a call are proper. -/
abbrev Arguments.Proper (types : Registry) (arguments : Arguments) : Prop :=
  arguments.All (Value.Proper types)

theorem Arguments.Proper.mono {types later : Registry} {arguments : Arguments}
    (grows : types.Grows later) (proper : arguments.Proper types) : arguments.Proper later :=
  proper.imp fun _ held => held.mono grows

namespace Binding

variable {types : Registry} {heap : Heap} {pool : Pool} {function : Name}

/-- What has been bound is proper, and so is the heap after it. -/
def Bound (types : Registry) (made : List (Name × Value) × Heap) : Prop :=
  (∀ slot ∈ made.1, slot.2.Proper types) ∧ made.2.Proper types

theorem take_perm {name : Name} {value : Value} {left : Pool}
    (taken : take name pool = some (value, left)) :
    ∃ other, ((other, value) :: left).Perm pool := by
  induction pool generalizing left with
  | nil => cases taken
  | cons first rest ih =>
      obtain ⟨head, held⟩ := first
      rw [take] at taken
      split at taken
      · cases taken
        exact ⟨head, .refl _⟩
      · obtain ⟨⟨found, others⟩, later, same⟩ := Option.map_eq_some_iff.mp taken
        cases same
        obtain ⟨other, perm⟩ := ih later
        exact ⟨other, (List.Perm.swap ..).trans (perm.cons _)⟩

mutual

theorem proper_make {heap : Heap} : ∀ recipe : Recipe, heap.Proper types →
    (recipe.make heap).1.Proper types ∧ (recipe.make heap).2.Proper types
  | .literal written, proper => ⟨proper_literal written, proper⟩
  | .plain type, proper => ⟨proper_object _ type, proper.newObject type Payload.proper_plain⟩
  | .tuple items, proper => by
      obtain ⟨held, after⟩ := proper_makeAll items proper
      exact ⟨proper_tuple.mpr held, after⟩
  | .list items, proper => by
      obtain ⟨held, after⟩ := proper_makeAll items proper
      exact ⟨proper_object _ _, after.newObject .list (Payload.proper_list.mpr held)⟩
  | .dict keys recipes, proper => by
      obtain ⟨held, after⟩ := proper_makeAll recipes proper
      have entries : (Mapping.ofPairs ((keys.map Literal.value).zip
          (Recipe.makeAll recipes heap).1)).Proper types := by
        refine .ofPairs fun pair member => ?_
        obtain ⟨key, value⟩ := List.of_mem_zip member
        obtain ⟨written, _, same⟩ := List.mem_map.mp key
        exact ⟨same ▸ proper_literal written, held _ value⟩
      exact ⟨proper_object _ _, after.newObject .dict (Payload.proper_mapping.mpr entries)⟩

theorem proper_makeAll {heap : Heap} : ∀ recipes : List Recipe, heap.Proper types →
    (∀ value ∈ (Recipe.makeAll recipes heap).1, value.Proper types) ∧
      (Recipe.makeAll recipes heap).2.Proper types
  | [], proper => ⟨nofun, proper⟩
  | recipe :: rest, proper => by
      obtain ⟨value, made⟩ := proper_make recipe proper
      obtain ⟨values, after⟩ := proper_makeAll rest made
      exact ⟨List.forall_mem_cons.mpr ⟨value, values⟩, after⟩

end

theorem proper_produce (proper : heap.Proper types) {default : Default}
    (shared : ∀ value, default = .shared value → value.Proper types) :
    (default.produce heap).1.Proper types ∧ (default.produce heap).2.Proper types := by
  cases default with
  | shared value => exact ⟨shared value rfl, proper⟩
  | fresh recipe => exact proper_make recipe proper

theorem keywordOrDefault_answers (function : Name) (builtin : Registry.builtin.Grows types)
    (proper : heap.Proper types) {p : Parameter}
    (shared : ∀ value, p.default = some (.shared value) → value.Proper types)
    (held : ∀ keyword ∈ pool, keyword.2.Proper types) :
    Answers types (fun made => made.1.Proper types ∧
      (∀ keyword ∈ made.2.1, keyword.2.Proper types) ∧ made.2.2.Proper types)
      (keywordOrDefault function p pool heap) := by
  unfold keywordOrDefault
  split
  · next value left taken =>
      obtain ⟨other, perm⟩ := take_perm taken
      refine ⟨held _ (perm.subset List.mem_cons_self), fun keyword member => ?_, proper⟩
      exact held keyword (perm.subset (List.mem_cons_of_mem _ member))
  · split
    · next default given =>
        obtain ⟨value, after⟩ := proper_produce proper fun value same =>
          shared value (given.trans (congrArg some same))
        exact ⟨value, held, after⟩
    · exact .ofCause builtin _

theorem proper_collected (held : ∀ keyword ∈ pool, keyword.2.Proper types) :
    (collected pool).Proper types := by
  refine .ofPairs fun pair member => ?_
  obtain ⟨keyword, listed, rfl⟩ := List.mem_map.mp member
  exact ⟨proper_str _, held keyword listed⟩

theorem slots_answers (builtin : Registry.builtin.Grows types) {parameters : List Parameter}
    {positional : List Value} (proper : heap.Proper types)
    (shared : ∀ p ∈ parameters, ∀ value, p.default = some (.shared value) → value.Proper types)
    (given : ∀ value ∈ positional, value.Proper types)
    (held : ∀ keyword ∈ pool, keyword.2.Proper types) :
    Answers types (Bound types) (slots function parameters positional pool heap) := by
  -- Along the parameters, the arguments that are left and the heap stay proper.
  induction parameters generalizing positional pool heap with
  | nil =>
      cases pool with
      | nil => exact ⟨nofun, proper⟩
      | cons keyword rest => exact .ofCause builtin _
  | cons p rest ih =>
      rw [List.forall_mem_cons] at shared
      have next {value : Value} {positional : List Value} {pool : Pool} {heap : Heap}
          (so : value.Proper types) (proper : heap.Proper types)
          (given : ∀ value ∈ positional, value.Proper types)
          (held : ∀ keyword ∈ pool, keyword.2.Proper types) :
          Answers types (Bound types) ((slots function rest positional pool heap).map
            fun made => ((p.name, value) :: made.1, made.2)) :=
        (ih proper shared.2 given held).map fun made bound =>
          ⟨List.forall_mem_cons.mpr ⟨so, bound.1⟩, bound.2⟩
      have supplied := keywordOrDefault_answers function builtin proper shared.1 held
      cases kind : p.kind with
      | positional =>
          cases positional with
          | nil =>
              simp only [slots, kind]
              split
              · next made =>
                  obtain ⟨so, left, after⟩ := supplied.of_ok made
                  exact next so after nofun left
              · next refused => exact supplied.of_error refused
          | cons value positional =>
              rw [List.forall_mem_cons] at given
              simp only [slots, kind]
              exact .ite (fun _ => .ofCause builtin _) fun _ => next given.1 proper given.2 held
      | keywordOnly =>
          simp only [slots, kind]
          split
          · next made =>
              obtain ⟨so, left, after⟩ := supplied.of_ok made
              exact next so after given left
          · next refused => exact supplied.of_error refused
      | variadic =>
          simp only [slots, kind]
          exact next (proper_tuple.mpr given) proper nofun held
      | keywordCollector =>
          simp only [slots, kind]
          have filled := Payload.proper_mapping.mpr (proper_collected held)
          exact next (proper_object _ _) (proper.newObject .dict filled) given nofun

end Binding

theorem World.Proper.bindArguments {world : World} {function : FunctionDef}
    {arguments : Arguments} (proper : world.Proper)
    (shared : ∀ p ∈ function.signature.parameters, ∀ value, p.default = some (.shared value) →
      value.Proper world.types) (held : arguments.Proper world.types) :
    Answers world.types (fun made => (∀ slot ∈ made.1.slots, slot.2.Proper world.types) ∧
      made.2.Proper ∧ made.2.types = world.types)
      (Machine.bindArguments function arguments world) := by
  have answers : Answers world.types
      (fun made => (∀ slot ∈ made.1.slots, slot.2.Proper world.types) ∧ made.2.Proper world.types)
      (bind function.name function.signature arguments world.heap) := by
    unfold bind
    split
    · exact proper.refuses _
    · refine .ite (fun _ => proper.refuses _) fun _ => ?_
      exact (Binding.slots_answers proper.builtin proper.heap shared held.positional
        held.keywords).map fun _ bound => bound
  exact answers.map fun made bound => ⟨bound.1, proper.withHeap bound.2, rfl⟩

end ScriptCore
