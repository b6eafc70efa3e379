import ScriptCore.Proofs.Binding.Acceptance
import ScriptCore.Proofs.Heap.Growth
import ScriptCore.Scope.Frame

/-!
# Where the arguments of a call end up

A call that is accepted fills one slot for each parameter.  Every argument is
found again in exactly the place its position or its name asks for, every
default is used where nothing was given, and the frame of the call has one
local for each slot.
-/

namespace ScriptCore

/-! ## What defaults make -/

mutual

/-- What a recipe makes while the first heap becomes the second one. -/
inductive Recipe.Gives : Heap → Heap → Recipe → Value → Prop where
  | literal {before after : Heap} (written : Literal) :
      Gives before after (.literal written) written.value
  | plain {before after : Heap} {id : Identity} {type : TypeId}
      (new : Heap.IsNew before after id) (holds : after.payload id = .plain) :
      Gives before after (.plain type) (.object id type)
  | tuple {before after : Heap} {items : List Recipe} {values : List Value}
      (inside : GivesAll before after items values) :
      Gives before after (.tuple items) (.tuple values)
  /-- The list is newer than all that it holds. -/
  | list {before middle after : Heap} {items : List Recipe} {values : List Value} {id : Identity}
      (inside : GivesAll before middle items values) (earlier : before.Extends middle)
      (later : middle.Extends after) (new : Heap.IsNew middle after id)
      (holds : after.payload id = .list values) :
      Gives before after (.list items) (.object id .list)
  | dict {before middle after : Heap} {keys : List Literal} {recipes : List Recipe}
      {values : List Value} {id : Identity} (inside : GivesAll before middle recipes values)
      (earlier : before.Extends middle) (later : middle.Extends after)
      (new : Heap.IsNew middle after id)
      (holds : after.payload id = .mapping (.ofPairs ((keys.map Literal.value).zip values))) :
      Gives before after (.dict keys recipes) (.object id .dict)

/-- What recipes make one after the other while the first heap becomes the second one. -/
inductive Recipe.GivesAll : Heap → Heap → List Recipe → List Value → Prop where
  | nil {before after : Heap} : GivesAll before after [] []
  | cons {before middle after : Heap} {recipe : Recipe} {rest : List Recipe} {value : Value}
      {others : List Value} (first : Gives before middle recipe value)
      (earlier : before.Extends middle) (later : middle.Extends after)
      (following : GivesAll middle after rest others) :
      GivesAll before after (recipe :: rest) (value :: others)

end

namespace Recipe

mutual

theorem make_extends (heap : Heap) : ∀ recipe : Recipe, heap.Extends (recipe.make heap).2
  | .literal _ => .refl heap
  | .plain type => heap.newObject_extends type .plain
  | .tuple items => makeAll_extends heap items
  | .list items => (makeAll_extends heap items).trans (Heap.newObject_extends _ .list _)
  | .dict _ recipes => (makeAll_extends heap recipes).trans (Heap.newObject_extends _ .dict _)

theorem makeAll_extends (heap : Heap) : ∀ recipes : List Recipe,
    heap.Extends (makeAll recipes heap).2
  | [] => .refl heap
  | recipe :: rest => (make_extends heap recipe).trans (makeAll_extends _ rest)

end

mutual

theorem make_gives (heap : Heap) : ∀ recipe : Recipe,
    recipe.Gives heap (recipe.make heap).2 (recipe.make heap).1
  | .literal written => .literal written
  | .plain type => by
      obtain ⟨id, same, new, holds⟩ := heap.newObject_spec type .plain
      exact same ▸ .plain new holds
  | .tuple items => .tuple (makeAll_gives heap items)
  | .list items => by
      obtain ⟨id, same, new, holds⟩ := Heap.newObject_spec (makeAll items heap).2 .list _
      exact same ▸ .list (makeAll_gives heap items) (makeAll_extends heap items)
        (Heap.newObject_extends _ _ _) new holds
  | .dict keys recipes => by
      obtain ⟨id, same, new, holds⟩ := Heap.newObject_spec (makeAll recipes heap).2 .dict _
      exact same ▸ .dict (makeAll_gives heap recipes) (makeAll_extends heap recipes)
        (Heap.newObject_extends _ _ _) new holds

theorem makeAll_gives (heap : Heap) : ∀ recipes : List Recipe,
    GivesAll heap (makeAll recipes heap).2 recipes (makeAll recipes heap).1
  | [] => .nil
  | recipe :: rest =>
      .cons (make_gives heap recipe) (make_extends heap recipe) (makeAll_extends _ rest)
        (makeAll_gives _ rest)

end

mutual

/-- What was made once stays what it is while other values are made. -/
theorem Gives.mono {first before after last : Heap} {recipe : Recipe} {held : Value}
    (left : first.Extends before) (right : after.Extends last) :
    recipe.Gives before after held → recipe.Gives first last held
  | .literal written => .literal written
  | .plain new holds => .plain (new.mono left right) ((right.payload _ new.2).trans holds)
  | .tuple inside => .tuple (inside.mono left right)
  | .list inside earlier later new holds =>
      .list (inside.mono left (.refl _)) (left.trans earlier) (later.trans right)
        (new.mono (.refl _) right) ((right.payload _ new.2).trans holds)
  | .dict inside earlier later new holds =>
      .dict (inside.mono left (.refl _)) (left.trans earlier) (later.trans right)
        (new.mono (.refl _) right) ((right.payload _ new.2).trans holds)

theorem GivesAll.mono {first before after last : Heap} {recipes : List Recipe}
    {values : List Value} (left : first.Extends before) (right : after.Extends last) :
    GivesAll before after recipes values → GivesAll first last recipes values
  | .nil => .nil
  | .cons gives earlier later following =>
      .cons (gives.mono left (.refl _)) (left.trans earlier) (later.trans right)
        (following.mono (.refl _) right)

end

end Recipe

namespace Default

/-- The values a parameter may hold by default, where `after` is the heap of the call. -/
def Gives (before after : Heap) : Default → Value → Prop
  | shared value, held => held = value
  | fresh recipe, held => recipe.Gives before after held

theorem produce_gives (default : Default) (heap : Heap) :
    default.Gives heap (default.produce heap).2 (default.produce heap).1 := by
  cases default with
  | shared value => rfl
  | fresh recipe => exact recipe.make_gives heap

theorem produce_extends (default : Default) (heap : Heap) :
    heap.Extends (default.produce heap).2 := by
  cases default with
  | shared value => exact .refl heap
  | fresh recipe => exact recipe.make_extends heap

theorem Gives.mono {first before after last : Heap} {default : Default} {held : Value}
    (gives : default.Gives before after held) (left : first.Extends before)
    (right : after.Extends last) : default.Gives first last held := by
  cases default with
  | shared value => exact gives
  | fresh recipe => exact Recipe.Gives.mono left right gives

end Default

namespace Binding

/-! ## Supplied values -/

theorem names_supplyAll (keywords : Pool) (parameters : List Parameter) (heap : Heap) :
    (supplyAll keywords parameters heap).1.map (·.1) = parameters.map (·.name) := by
  induction parameters generalizing heap with
  | nil => rfl
  | cons p rest ih => simp only [supplyAll, List.map_cons, ih]

theorem supply_extends (keywords : Pool) (p : Parameter) (heap : Heap) :
    heap.Extends (supply keywords p heap).2 := by
  unfold supply
  cases Table.lookup p.name keywords with
  | some value => exact .refl heap
  | none =>
      cases p.default with
      | some default => exact default.produce_extends heap
      | none => exact .refl heap

theorem supplyAll_extends (keywords : Pool) (parameters : List Parameter) (heap : Heap) :
    heap.Extends (supplyAll keywords parameters heap).2 := by
  induction parameters generalizing heap with
  | nil => exact .refl heap
  | cons p rest ih => exact (supply_extends keywords p heap).trans (ih _)

/-- Each requested parameter has its own supply, made somewhere on the way. -/
theorem mem_supplyAll {keywords : Pool} {parameters : List Parameter} {p : Parameter}
    (member : p ∈ parameters) (heap : Heap) :
    ∃ middle, heap.Extends middle ∧
      (p.name, (supply keywords p middle).1) ∈ (supplyAll keywords parameters heap).1 ∧
      (supply keywords p middle).2.Extends (supplyAll keywords parameters heap).2 := by
  induction parameters generalizing heap with
  | nil => cases member
  | cons q rest ih =>
      rcases List.mem_cons.mp member with rfl | later
      · exact ⟨heap, .refl heap, List.mem_cons_self, supplyAll_extends keywords rest _⟩
      · obtain ⟨middle, before, slot, after⟩ := ih later (supply keywords q heap).2
        exact ⟨middle, (supply_extends keywords q heap).trans before,
          List.mem_cons_of_mem _ slot, after⟩

/-! ## Slots of a call -/

/-- The positional arguments that are left once the positional parameters are filled. -/
def overflow (s : Signature) (a : Arguments) : List Value :=
  a.positional.drop s.positional.length

/-- The keywords that name neither a positional nor a keyword-only parameter. -/
def collectedKeywords (s : Signature) (a : Arguments) : Pool :=
  leftover (s.positional ++ s.keywordOnly) a.keywords

/-- The contents of the keyword collector: the keywords by their names, in call order. -/
def collectedMapping (s : Signature) (a : Arguments) : Mapping :=
  ⟨(collectedKeywords s a).map fun (name, value) => (.str name, value)⟩

/-- Every argument of a call is found again in its slot, and every slot is accounted for. -/
structure Conserves (function : Name) (s : Signature) (a : Arguments) (before : Heap)
    (slots : List (Name × Value)) (after : Heap) : Prop where
  /-- One slot for each parameter, in declaration order. -/
  names : slots.map (·.1) = s.parameters.map (·.name)
  distinct : (slots.map (·.1)).Nodup
  /-- The positional slots followed by the overflow are the positional arguments. -/
  positional : (slots.take (filled s a).length).map (·.2) ++ overflow s a = a.positional
  variadic : ∀ p ∈ s.variadic?, (p.name, .tuple (overflow s a)) ∈ slots
  nothingOver : s.variadic? = none → overflow s a = []
  /-- A keyword that names a parameter is the value of that parameter. -/
  keywords : ∀ p ∈ s.positional ++ s.keywordOnly, ∀ value,
    (p.name, value) ∈ a.keywords → (p.name, value) ∈ slots
  /-- All other keywords are in a new mapping. -/
  collector : ∀ p ∈ s.keywordCollector?, ∃ id, (p.name, .object id .dict) ∈ slots ∧
    Heap.IsNew before after id ∧ after.payload id = .mapping (collectedMapping s a)
  nothingLeft : s.keywordCollector? = none → collectedKeywords s a = []
  /-- Where neither position nor keyword gives a value, the slot holds the default. -/
  defaults : ∀ p ∈ requested s a, p.name ∉ given a → ∃ default value, p.default = some default ∧
    (p.name, value) ∈ slots ∧ default.Gives before after value
  /-- The place of a parameter is the place of its slot. -/
  places : ∀ i p, s.parameters[i]? = some p →
    s.positionOf? p.name = some i ∧ ∃ value, slots[i]? = some (p.name, value)
  /-- The frame of the call has the slots as its locals, and no others. -/
  locals : (Frame.ofArguments function ⟨slots⟩).locals.entries = slots
  heap : before.Extends after

theorem names_collectValues (collector : Option Parameter) (values : List Value) :
    (collectValues collector values).map (·.1) = collector.toList.map (·.name) := by
  cases collector <;> rfl

theorem names_collectKeywords (collector : Option Parameter) (pool : Pool) (heap : Heap) :
    (collectKeywords collector pool heap).1.map (·.1) = collector.toList.map (·.name) := by
  cases collector <;> rfl

theorem collectKeywords_extends (collector : Option Parameter) (pool : Pool) (heap : Heap) :
    heap.Extends (collectKeywords collector pool heap).2 := by
  cases collector with
  | none => exact .refl heap
  | some p => exact heap.newObject_extends .dict (.mapping (collected pool))

/-- Keywords with distinct names are collected as they are. -/
theorem collected_eq {pool : Pool} (unique : (pool.map (·.1)).Nodup) :
    collected pool = ⟨pool.map fun (name, value) => (.str name, value)⟩ := by
  have distinct : (pool.map fun (name, value) => (Value.str name, value)).Pairwise
      fun a b => a.1.equal b.1 = false := by
    rw [List.pairwise_map]
    refine (List.pairwise_map.mp unique).imp fun {left right} different => ?_
    simpa [Value.equal] using different
  exact congrArg Mapping.mk (Mapping.entries_ofPairs distinct)

section Bound

variable {function : Name} {s : Signature} {a : Arguments}

theorem length_filled : (filled s a).length = (a.positional.take s.positional.length).length := by
  simp [filled, Nat.min_comm]

theorem names_bound (heap : Heap) :
    (bound s a heap).1.map (·.1) = s.parameters.map (·.name) := by
  rw [parameters_eq_filled_append (s := s) (a := a)]
  simp only [bound, List.map_append, names_supplyAll, names_collectValues, names_collectKeywords,
    List.append_assoc]
  rw [List.map_fst_zip (by simp [length_filled])]

/-- The first slots hold the positional arguments, as far as there are positional parameters. -/
theorem take_bound (heap : Heap) :
    ((bound s a heap).1.take (filled s a).length).map (·.2) =
      a.positional.take s.positional.length := by
  have long : (((filled s a).map (·.name)).zip (a.positional.take s.positional.length)).length =
      (filled s a).length := by
    rw [List.length_zip, List.length_map, ← length_filled, Nat.min_self]
  simp only [bound, List.append_assoc]
  rw [List.take_append_of_le_length (Nat.le_of_eq long.symm), ← long, List.take_length,
    List.map_snd_zip (by simp [length_filled])]

theorem bound_extends (heap : Heap) : heap.Extends (bound s a heap).2 :=
  ((supplyAll_extends _ _ heap).trans (supplyAll_extends _ _ _)).trans
    (collectKeywords_extends _ _ _)

/-- Each requested parameter has its own supply among the slots. -/
theorem mem_bound {p : Parameter} (member : p ∈ requested s a) (heap : Heap) :
    ∃ middle, heap.Extends middle ∧
      (p.name, (supply a.keywords p middle).1) ∈ (bound s a heap).1 ∧
      (supply a.keywords p middle).2.Extends (bound s a heap).2 := by
  rcases List.mem_append.mp member with late | only
  · obtain ⟨middle, before, slot, after⟩ := mem_supplyAll late heap
    refine ⟨middle, before, ?_, ?_⟩
    · simp only [bound, List.mem_append]
      exact .inl (.inl (.inl (.inr slot)))
    · exact after.trans ((supplyAll_extends _ _ _).trans (collectKeywords_extends _ _ _))
  · obtain ⟨middle, before, slot, after⟩ :=
      mem_supplyAll only (supplyAll a.keywords (unfilled s a) heap).2
    refine ⟨middle, (supplyAll_extends _ _ heap).trans before, ?_, ?_⟩
    · simp only [bound, List.mem_append]
      exact .inl (.inr slot)
    · exact after.trans (collectKeywords_extends _ _ _)

/-- No keyword names a filled parameter, so leaving these out as well changes nothing. -/
theorem leftover_requested (accepts : Accepts s a) :
    leftover (requested s a) a.keywords = collectedKeywords s a := by
  refine List.filter_congr fun entry member => decide_eq_decide.mpr (not_congr ?_)
  have other : entry.1 ∉ (filled s a).map (·.name) := by
    intro known
    obtain ⟨p, early, same⟩ := List.mem_map.mp known
    exact accepts.once p early (List.mem_map.mpr ⟨entry, member, same.symm⟩)
  have split : s.positional ++ s.keywordOnly = filled s a ++ requested s a := by
    rw [filled, requested, unfilled, ← List.append_assoc, List.take_append_drop]
  rw [split, List.map_append, List.mem_append]
  simp only [other, false_or]

theorem mem_requested_of_given (accepts : Accepts s a) {p : Parameter}
    (member : p ∈ s.positional ++ s.keywordOnly) (known : p.name ∈ given a) :
    p ∈ requested s a := by
  rcases List.mem_append.mp member with positional | only
  · rw [← List.take_append_drop a.positional.length s.positional] at positional
    rcases List.mem_append.mp positional with early | late
    · exact absurd known (accepts.once p early)
    · exact List.mem_append_left _ late
  · exact List.mem_append_right _ only

/-- A parameter that has no positional argument holds its keyword. -/
theorem keyword_mem_bound (accepts : Accepts s a) {p : Parameter} {value : Value}
    (member : p ∈ s.positional ++ s.keywordOnly) (keyword : (p.name, value) ∈ a.keywords)
    (heap : Heap) : (p.name, value) ∈ (bound s a heap).1 := by
  have known : p.name ∈ given a := List.mem_map.mpr ⟨(p.name, value), keyword, rfl⟩
  obtain ⟨middle, _, slot, _⟩ := mem_bound (mem_requested_of_given accepts member known) heap
  have found : Table.lookup p.name a.keywords = some value :=
    Table.lookup_of_mem accepts.distinct keyword
  simpa only [supply, found] using slot

/-- A parameter that has no argument holds its default. -/
theorem default_mem_bound (accepts : Accepts s a) {p : Parameter} (member : p ∈ requested s a)
    (omitted : p.name ∉ given a) (heap : Heap) :
    ∃ default value, p.default = some default ∧ (p.name, value) ∈ (bound s a heap).1 ∧
      default.Gives heap (bound s a heap).2 value := by
  obtain ⟨middle, before, slot, after⟩ := mem_bound member heap
  have missing : Table.lookup p.name a.keywords = none := Table.lookup_eq_none_iff.mpr omitted
  obtain ⟨default, declared⟩ : ∃ default, p.default = some default :=
    Option.isSome_iff_exists.mp ((accepts.complete p member).resolve_left omitted)
  simp only [supply, missing, declared] at slot after
  exact ⟨default, _, declared, slot, (default.produce_gives middle).mono before after⟩

theorem collected_leftover (accepts : Accepts s a) :
    collected (leftover (requested s a) a.keywords) = collectedMapping s a := by
  rw [collected_eq (nodup_names_leftover accepts.distinct _), leftover_requested accepts]
  rfl

/-- The keyword collector holds a new mapping of the keywords that nothing else takes. -/
theorem collector_mem_bound (accepts : Accepts s a) {p : Parameter}
    (declared : s.keywordCollector? = some p) (heap : Heap) :
    ∃ id, (p.name, .object id .dict) ∈ (bound s a heap).1 ∧
      Heap.IsNew heap (bound s a heap).2 id ∧
      (bound s a heap).2.payload id = .mapping (collectedMapping s a) := by
  have late := (supplyAll_extends a.keywords (unfilled s a) heap).trans
    (supplyAll_extends a.keywords s.keywordOnly _)
  obtain ⟨id, made, new, holds⟩ := Heap.newObject_spec
    (supplyAll a.keywords s.keywordOnly (supplyAll a.keywords (unfilled s a) heap).2).2
    .dict (.mapping (collectedMapping s a))
  simp only [bound, collectKeywords, declared, collected_leftover accepts, List.mem_append,
    List.mem_singleton]
  exact ⟨id, .inr (made ▸ rfl), new.mono late (.refl _), holds⟩

/-- Without keyword collector every keyword names a parameter. -/
theorem nothing_left (accepts : Accepts s a) (missing : s.keywordCollector? = none) :
    collectedKeywords s a = [] := by
  have known := accepts.known.resolve_left (by simp [missing])
  rw [← leftover_requested accepts, leftover, List.filter_eq_nil_iff]
  intro entry member
  obtain ⟨p, requested, same⟩ := known entry.1 (List.mem_map.mpr ⟨entry, member, rfl⟩)
  simpa using ⟨p, requested, same⟩

theorem slot_of_place {slots : List (Name × Value)} {i : Nat} {p : Parameter}
    (names : slots.map (·.1) = s.parameters.map (·.name)) (place : s.parameters[i]? = some p) :
    ∃ value, slots[i]? = some (p.name, value) := by
  have named : (slots.map (·.1))[i]? = some p.name := by
    rw [names, List.getElem?_map, place, Option.map_some]
  rw [List.getElem?_map, Option.map_eq_some_iff] at named
  obtain ⟨⟨name, value⟩, slot, rfl⟩ := named
  exact ⟨value, slot⟩

end Bound

/--
A call that is accepted binds every parameter once, in declaration order, and
neither loses, duplicates nor reorders an argument.
-/
theorem bind_conserves {function : Name} {s : Signature} {a : Arguments} {before after : Heap}
    {result : Bindings} (accepted : bind function s a before = .ok (result, after)) :
    Conserves function s a before result.slots after := by
  have accepts : Accepts s a :=
    (bind_accepts_or_reports_first_fault function s a before).1.mp ⟨_, accepted⟩
  rw [bind_eq, fault_eq_none_iff.mpr accepts] at accepted
  cases accepted
  have names := names_bound (s := s) (a := a) before
  have distinct : ((bound s a before).1.map (·.1)).Nodup := names ▸ s.names_nodup
  exact
    { names
      distinct
      positional := by rw [take_bound, overflow, List.take_append_drop]
      variadic := fun p declared => by
        simp only [bound, collectValues, List.mem_append]
        exact .inl (.inl (.inr (by simp [Option.mem_def.mp declared, overflow])))
      nothingOver := fun missing => List.drop_eq_nil_of_le
        (accepts.fits.resolve_right (by simp [missing]))
      keywords := fun p member value keyword => keyword_mem_bound accepts member keyword before
      collector := fun p declared => collector_mem_bound accepts declared before
      nothingLeft := nothing_left accepts
      defaults := fun p member omitted => default_mem_bound accepts member omitted before
      places := fun i p place =>
        ⟨s.positionOf?_of_getElem? place, slot_of_place names place⟩
      locals := Table.entries_setAll distinct
      heap := bound_extends before }

/-- A signature with parameters of every kind. -/
def everyKind : Signature :=
  ⟨[⟨"first", .positional, none⟩, ⟨"second", .positional, some (.fresh .emptyList)⟩,
    ⟨"rest", .variadic, none⟩, ⟨"flag", .keywordOnly, some (.shared (.bool false))⟩,
    ⟨"more", .keywordCollector, none⟩], _, rfl⟩

theorem bind_conserves_every_kind :
    ∃ after, bind "f" everyKind
        ⟨[.int 1, .int 2, .int 3], [("rest", .int 4), ("other", .none)]⟩ {} =
          .ok (⟨[("first", .int 1), ("second", .int 2), ("rest", .tuple [.int 3]),
            ("flag", .bool false), ("more", .object ⟨0⟩ .dict)]⟩, after) ∧
      Conserves "f" everyKind
        ⟨[.int 1, .int 2, .int 3], [("rest", .int 4), ("other", .none)]⟩ {}
        [("first", .int 1), ("second", .int 2), ("rest", .tuple [.int 3]),
          ("flag", .bool false), ("more", .object ⟨0⟩ .dict)] after :=
  ⟨_, rfl, bind_conserves rfl⟩

end Binding

end ScriptCore
