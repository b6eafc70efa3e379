import Mathlib.Data.List.Find
import Mathlib.Data.List.Forall2
import ScriptCore.Proofs.Binding.Conservation
import ScriptCore.Proofs.Heap.Counterparts

/-!
# Calls that pass the same arguments in another way

A positional parameter can be given by position or by keyword, and keywords can
be given in any order.  Neither choice is seen by the function that is called:
the parameters are bound to the same values, up to the identities of objects
that are made for the call, or the call is refused in the same way.
-/

namespace ScriptCore

/-! ## Entries -/

/-- Where no key occurs twice, the order of entries does not matter. -/
theorem Table.lookup_perm {κ α : Type} [DecidableEq κ] {key : κ} {entries other : List (κ × α)}
    (permuted : entries.Perm other) (nodup : (entries.map Prod.fst).Nodup) :
    lookup key entries = lookup key other := by
  cases found : lookup key entries with
  | some value =>
      have member := permuted.mem_iff.mp (mem_of_lookup found)
      exact (lookup_of_mem ((permuted.map _).nodup_iff.mp nodup) member).symm
  | none =>
      have absent := lookup_eq_none_iff.mp found
      exact (lookup_eq_none_iff.mpr (mt (permuted.map _).mem_iff.mpr absent)).symm

/-- An entry for one key is not seen by the others. -/
theorem Table.lookup_insert_of_ne {κ α : Type} [DecidableEq κ] {key other : κ} {value : α}
    {before after : List (κ × α)} (different : other ≠ key) :
    lookup key (before ++ (other, value) :: after) = lookup key (before ++ after) := by
  induction before with
  | nil => exact if_neg different
  | cons entry rest ih =>
      rw [List.cons_append, List.cons_append, lookup, lookup, ih]

theorem Bindings.get?_eq_lookup (bound : Bindings) (name : Name) :
    bound.get? name = Table.lookup name bound.slots := by
  obtain ⟨slots⟩ := bound
  unfold get?
  induction slots with
  | nil => rfl
  | cons slot rest ih =>
      by_cases same : slot.1 = name
      · simp [Table.lookup, same]
      · simpa [Table.lookup, same] using ih

theorem Bindings.get?_of_mem {bound : Bindings} {name : Name} {value : Value}
    (distinct : (bound.slots.map (·.1)).Nodup) (member : (name, value) ∈ bound.slots) :
    bound.get? name = some value := by
  rw [get?_eq_lookup, Table.lookup_of_mem distinct member]

/-! ## Recipes -/

namespace Mapping

variable {related : Value → Value → Prop} {entries others pairs partners : List (Value × Value)}
  {values rest : List Value}

/-- Entries for the same key, with related values. -/
structure SameEntry (related : Value → Value → Prop) (entry other : Value × Value) : Prop where
  key : entry.1 = other.1
  value : related entry.2 other.2

theorem sameEntries_put (same : List.Forall₂ (SameEntry related) entries others) (key : Value)
    {value other : Value} (new : related value other) :
    List.Forall₂ (SameEntry related) (put key value entries) (put key other others) := by
  induction same with
  | nil => exact .cons ⟨rfl, new⟩ .nil
  | @cons entry partner _ _ here later ih =>
      rw [put, put, here.key]
      split
      · exact .cons ⟨rfl, new⟩ later
      · exact .cons ⟨rfl, here.value⟩ ih

theorem sameEntries_ofPairs (same : List.Forall₂ (SameEntry related) pairs partners) :
    List.Forall₂ (SameEntry related) (ofPairs pairs).entries (ofPairs partners).entries := by
  have inserted (start other : Mapping)
      (begun : List.Forall₂ (SameEntry related) start.entries other.entries) :
      List.Forall₂ (SameEntry related)
        (pairs.foldl (fun mapping pair => mapping.insert pair.1 pair.2) start).entries
        (partners.foldl (fun mapping pair => mapping.insert pair.1 pair.2) other).entries := by
    induction same generalizing start other with
    | nil => exact begun
    | @cons pair partner _ _ here _ ih =>
        refine ih _ _ ?_
        simp only [insert, here.key]
        exact sameEntries_put begun partner.1 here.value
  exact inserted ∅ ∅ .nil

theorem sameEntries_zip (keys : List Value) (same : List.Forall₂ related values rest) :
    List.Forall₂ (SameEntry related) (keys.zip values) (keys.zip rest) := by
  induction same generalizing keys with
  | nil => simp
  | cons here _ ih =>
      cases keys with
      | nil => exact .nil
      | cons key keys => exact .cons ⟨rfl, here⟩ (ih keys)

theorem keys_eq_of_sameEntries (same : List.Forall₂ (SameEntry related) entries others) :
    entries.map Prod.fst = others.map Prod.fst := by
  induction same with
  | nil => rfl
  | cons here _ ih => rw [List.map_cons, List.map_cons, here.key, ih]

end Mapping

namespace Recipe

open Heap (Parallel Counterparts)

variable {left right : Heap}

mutual

/-- What a recipe makes in two runs differs in the identities of new objects only. -/
theorem make_parallel {leftAfter rightAfter : Heap} :
    ∀ recipe : Recipe, Parallel left leftAfter right rightAfter →
      Parallel left (recipe.make leftAfter).2 right (recipe.make rightAfter).2 ∧
        Counterparts left (recipe.make leftAfter).2 right (recipe.make rightAfter).2
          (recipe.make leftAfter).1 (recipe.make rightAfter).1
  | .literal _, parallel => ⟨parallel, .same _⟩
  | .plain type, parallel =>
      ⟨parallel.newObject type _ _, .made (parallel.madeTogether_newObject type _ _)⟩
  | .tuple items, parallel => by
      obtain ⟨made, values⟩ := makeAll_parallel items parallel
      obtain ⟨length, inside⟩ := List.forall₂_iff_zip.mp values
      exact ⟨made, .tuple length inside⟩
  | .list items, parallel => by
      obtain ⟨made, values⟩ := makeAll_parallel items parallel
      obtain ⟨length, inside⟩ := List.forall₂_iff_zip.mp values
      refine ⟨made.newObject .list _ _, ?_⟩
      refine .list (made.madeTogether_newObject .list _ _) length fun pair => ?_
      exact (inside pair).mono (Heap.newObject_extends _ _ _) (Heap.newObject_extends _ _ _)
  | .dict keys recipes, parallel => by
      obtain ⟨made, values⟩ := makeAll_parallel recipes parallel
      have entries := Mapping.sameEntries_ofPairs
        (Mapping.sameEntries_zip (keys.map Literal.value) values)
      refine ⟨made.newObject .dict _ _, ?_⟩
      refine .dict (made.madeTogether_newObject .dict _ _)
        (Mapping.keys_eq_of_sameEntries entries) fun pair => ?_
      have alike := ((List.forall₂_iff_zip.mp entries).2 pair).value
      exact alike.mono (Heap.newObject_extends _ _ _) (Heap.newObject_extends _ _ _)

theorem makeAll_parallel {leftAfter rightAfter : Heap} :
    ∀ recipes : List Recipe, Parallel left leftAfter right rightAfter →
      Parallel left (makeAll recipes leftAfter).2 right (makeAll recipes rightAfter).2 ∧
        List.Forall₂ (Counterparts left (makeAll recipes leftAfter).2 right
            (makeAll recipes rightAfter).2)
          (makeAll recipes leftAfter).1 (makeAll recipes rightAfter).1
  | [], parallel => ⟨parallel, .nil⟩
  | recipe :: rest, parallel => by
      obtain ⟨made, value⟩ := make_parallel recipe parallel
      obtain ⟨all, values⟩ := makeAll_parallel rest made
      exact ⟨all, .cons (value.mono (makeAll_extends _ rest) (makeAll_extends _ rest)) values⟩

end

end Recipe

namespace Binding

/-! ## Slots of two calls -/

/-- Slots of one parameter in two calls, with counterparts in them. -/
structure SameSlot (left leftAfter right rightAfter : Heap) (first second : Name × Value) :
    Prop where
  name : first.1 = second.1
  value : Heap.Counterparts left leftAfter right rightAfter first.2 second.2

/-- The slots of all parameters but the keyword collector. -/
def settled (s : Signature) (a : Arguments) (heap : Heap) : List (Name × Value) × Heap :=
  let (late, heap) := supplyAll a.keywords (unfilled s a) heap
  let (only, heap) := supplyAll a.keywords s.keywordOnly heap
  (((filled s a).map (·.name)).zip (a.positional.take s.positional.length) ++ late ++
    collectValues s.variadic? (a.positional.drop s.positional.length) ++ only, heap)

theorem bound_eq_settled (s : Signature) (a : Arguments) (heap : Heap) :
    bound s a heap =
      ((settled s a heap).1 ++ (collectKeywords s.keywordCollector?
          (leftover (requested s a) a.keywords) (settled s a heap).2).1,
        (collectKeywords s.keywordCollector? (leftover (requested s a) a.keywords)
          (settled s a heap).2).2) :=
  rfl

section TwoHeaps

variable {left leftAfter leftLast right rightAfter rightLast : Heap}

theorem SameSlot.mono {first second : Name × Value}
    (same : SameSlot left leftAfter right rightAfter first second)
    (leftGrows : leftAfter.Extends leftLast) (rightGrows : rightAfter.Extends rightLast) :
    SameSlot left leftLast right rightLast first second :=
  ⟨same.name, same.value.mono leftGrows rightGrows⟩

theorem sameSlots_mono {first second : List (Name × Value)}
    (same : List.Forall₂ (SameSlot left leftAfter right rightAfter) first second)
    (leftGrows : leftAfter.Extends leftLast) (rightGrows : rightAfter.Extends rightLast) :
    List.Forall₂ (SameSlot left leftLast right rightLast) first second :=
  same.imp fun _ _ slot => slot.mono leftGrows rightGrows

theorem sameSlots_refl (slots : List (Name × Value)) :
    List.Forall₂ (SameSlot left leftAfter right rightAfter) slots slots :=
  List.forall₂_same.mpr fun _ _ => ⟨rfl, .same _⟩

theorem exists_sameSlot {slots others : List (Name × Value)} {slot : Name × Value}
    (same : List.Forall₂ (SameSlot left leftAfter right rightAfter) slots others)
    (member : slot ∈ slots) :
    ∃ partner ∈ others, SameSlot left leftAfter right rightAfter slot partner := by
  induction same with
  | nil => cases member
  | @cons first second _ _ here _ ih =>
      rcases List.mem_cons.mp member with rfl | later
      · exact ⟨second, List.mem_cons_self, here⟩
      · obtain ⟨partner, found, there⟩ := ih later
        exact ⟨partner, List.mem_cons_of_mem _ found, there⟩

variable (parallel : Heap.Parallel left leftAfter right rightAfter)

include parallel

theorem produce_parallel (default : Default) :
    Heap.Parallel left (default.produce leftAfter).2 right (default.produce rightAfter).2 ∧
      Heap.Counterparts left (default.produce leftAfter).2 right (default.produce rightAfter).2
        (default.produce leftAfter).1 (default.produce rightAfter).1 := by
  cases default with
  | shared value => exact ⟨parallel, .same _⟩
  | fresh recipe => exact recipe.make_parallel parallel

theorem supply_parallel (keywords : Pool) (p : Parameter) :
    Heap.Parallel left (supply keywords p leftAfter).2 right (supply keywords p rightAfter).2 ∧
      Heap.Counterparts left (supply keywords p leftAfter).2 right
        (supply keywords p rightAfter).2 (supply keywords p leftAfter).1
        (supply keywords p rightAfter).1 := by
  unfold supply
  cases Table.lookup p.name keywords with
  | some value => exact ⟨parallel, .same _⟩
  | none =>
      cases p.default with
      | some default => exact produce_parallel parallel default
      | none => exact ⟨parallel, .same _⟩

theorem supplyAll_parallel (keywords : Pool) (parameters : List Parameter) :
    Heap.Parallel left (supplyAll keywords parameters leftAfter).2 right
        (supplyAll keywords parameters rightAfter).2 ∧
      List.Forall₂ (SameSlot left (supplyAll keywords parameters leftAfter).2 right
          (supplyAll keywords parameters rightAfter).2)
        (supplyAll keywords parameters leftAfter).1
        (supplyAll keywords parameters rightAfter).1 := by
  induction parameters generalizing leftAfter rightAfter with
  | nil => exact ⟨parallel, .nil⟩
  | cons p rest ih =>
      obtain ⟨supplied, value⟩ := supply_parallel parallel keywords p
      obtain ⟨all, slots⟩ := ih supplied
      refine ⟨all, .cons ⟨rfl, value.mono ?_ ?_⟩ slots⟩
      · exact supplyAll_extends keywords rest _
      · exact supplyAll_extends keywords rest _

theorem collectKeywords_parallel (collector : Option Parameter) (pool other : Pool) :
    Heap.Parallel left (collectKeywords collector pool leftAfter).2 right
      (collectKeywords collector other rightAfter).2 := by
  cases collector with
  | none => exact parallel
  | some p => exact parallel.newObject .dict _ _

theorem sameSlots_collectKeywords (collector : Option Parameter) (pool : Pool) :
    List.Forall₂ (SameSlot left (collectKeywords collector pool leftAfter).2 right
        (collectKeywords collector pool rightAfter).2)
      (collectKeywords collector pool leftAfter).1
      (collectKeywords collector pool rightAfter).1 := by
  cases collector with
  | none => exact .nil
  | some p =>
      have together := parallel.madeTogether_newObject .dict (.mapping (collected pool))
        (.mapping (collected pool))
      exact .cons ⟨rfl, .made together⟩ .nil

theorem settled_parallel (s : Signature) (a : Arguments) :
    Heap.Parallel left (settled s a leftAfter).2 right (settled s a rightAfter).2 ∧
      List.Forall₂ (SameSlot left (settled s a leftAfter).2 right (settled s a rightAfter).2)
        (settled s a leftAfter).1 (settled s a rightAfter).1 := by
  obtain ⟨lateParallel, late⟩ := supplyAll_parallel parallel a.keywords (unfilled s a)
  obtain ⟨onlyParallel, only⟩ := supplyAll_parallel lateParallel a.keywords s.keywordOnly
  have later := sameSlots_mono late (supplyAll_extends a.keywords s.keywordOnly _)
    (supplyAll_extends a.keywords s.keywordOnly _)
  refine ⟨onlyParallel, List.rel_append (List.rel_append (List.rel_append ?_ later) ?_) only⟩
  · exact sameSlots_refl _
  · exact sameSlots_refl _

theorem bound_parallel (s : Signature) (a : Arguments) :
    Heap.Parallel left (bound s a leftAfter).2 right (bound s a rightAfter).2 ∧
      List.Forall₂ (SameSlot left (bound s a leftAfter).2 right (bound s a rightAfter).2)
        (bound s a leftAfter).1 (bound s a rightAfter).1 := by
  obtain ⟨settledParallel, slots⟩ := settled_parallel parallel s a
  have later := sameSlots_mono slots
    (collectKeywords_extends s.keywordCollector? (leftover (requested s a) a.keywords) _)
    (collectKeywords_extends s.keywordCollector? (leftover (requested s a) a.keywords) _)
  refine ⟨collectKeywords_parallel settledParallel _ _ _, List.rel_append later ?_⟩
  exact sameSlots_collectKeywords settledParallel s.keywordCollector? _

end TwoHeaps

theorem get?_bound {s : Signature} {a : Arguments} {heap : Heap} {name : Name} {value : Value}
    (member : (name, value) ∈ (bound s a heap).1) :
    Bindings.get? ⟨(bound s a heap).1⟩ name = some value :=
  Bindings.get?_of_mem (names_bound (s := s) (a := a) heap ▸ s.names_nodup) member

/-- The keyword collector holds a new mapping in two calls, each with its own keywords. -/
theorem collector_together {s : Signature} {a b : Arguments} {left right : Heap} {p : Parameter}
    (parallel : Heap.Parallel left (settled s a left).2 right (settled s b right).2)
    (accepts : Accepts s a) (acceptsToo : Accepts s b)
    (declared : s.keywordCollector? = some p) :
    ∃ x y, (p.name, x) ∈ (bound s a left).1 ∧ (p.name, y) ∈ (bound s b right).1 ∧
      Heap.MadeTogether left (bound s a left).2 right (bound s b right).2 .dict
        x (.mapping (collectedMapping s a)) y (.mapping (collectedMapping s b)) := by
  have together := parallel.madeTogether_newObject .dict (.mapping (collectedMapping s a))
    (.mapping (collectedMapping s b))
  simp only [bound_eq_settled, collectKeywords, declared, collected_leftover accepts,
    collected_leftover acceptsToo, List.mem_append, List.mem_singleton]
  exact ⟨_, _, .inr rfl, .inr rfl, together⟩

/-- How two calls in two heaps end alike: bound to counterparts, or refused with one error. -/
inductive SameOutcome (s : Signature) (a : Arguments) (left right : Heap) :
    Except Error (Bindings × Heap) → Except Error (Bindings × Heap) → Prop where
  | bound {first second : Bindings} {leftAfter rightAfter : Heap}
      (parallel : Heap.Parallel left leftAfter right rightAfter)
      (slots : List.Forall₂ (SameSlot left leftAfter right rightAfter) first.slots second.slots)
      (collector : ∀ p ∈ s.keywordCollector?, ∃ x y,
        first.get? p.name = some x ∧ second.get? p.name = some y ∧
          Heap.MadeTogether left leftAfter right rightAfter .dict
            x (.mapping (collectedMapping s a)) y (.mapping (collectedMapping s a))) :
      SameOutcome s a left right (.ok (first, leftAfter)) (.ok (second, rightAfter))
  | refused (error : Error) : SameOutcome s a left right (.error error) (.error error)

/-- The heap in which a call is made decides about the identities of new objects only. -/
theorem bind_sameOutcome (function : Name) (s : Signature) (a : Arguments) (left right : Heap) :
    SameOutcome s a left right (bind function s a left) (bind function s a right) := by
  rw [bind_eq, bind_eq]
  cases checked : fault function s a with
  | some cause => exact .refused _
  | none =>
      have accepts := fault_eq_none_iff.mp checked
      obtain ⟨parallel, slots⟩ := bound_parallel (.start left right) s a
      have before := (settled_parallel (.start left right) s a).1
      refine .bound parallel slots fun p declared => ?_
      obtain ⟨x, y, here, there, together⟩ :=
        collector_together before accepts accepts declared
      exact ⟨x, y, get?_bound here, get?_bound there, together⟩

/-! ## By position or by keyword -/

section Inserted

variable {name : Name} {value : Value} {before after : Pool}

theorem mem_names_insert {other : Name} (different : other ≠ name) :
    other ∈ (before ++ (name, value) :: after).map (·.1) ↔
      other ∈ (before ++ after).map (·.1) := by
  simp [different]

theorem lookup_insert_self (absent : name ∉ (before ++ after).map (·.1)) :
    Table.lookup name (before ++ (name, value) :: after) = some value := by
  induction before with
  | nil => exact if_pos rfl
  | cons entry rest ih =>
      rw [List.cons_append, List.map_cons, List.mem_cons, not_or] at absent
      rw [List.cons_append, Table.lookup, if_neg (Ne.symm absent.1), ih absent.2]

theorem firstRepeated_congr {seen other names : List Name}
    (same : ∀ name ∈ names, name ∈ seen ↔ name ∈ other) :
    firstRepeated seen names = firstRepeated other names := by
  induction names generalizing seen other with
  | nil => rfl
  | cons name rest ih =>
      have later : firstRepeated (name :: seen) rest = firstRepeated (name :: other) rest :=
        ih fun again member => by
          rw [List.mem_cons, List.mem_cons, same again (List.mem_cons_of_mem _ member)]
      simp only [firstRepeated, same name List.mem_cons_self, later]

/-- A name that occurs nowhere else repeats nothing. -/
theorem firstRepeated_insert {seen names rest : List Name} (fresh : name ∉ seen)
    (absent : name ∉ names ++ rest) :
    firstRepeated seen (names ++ name :: rest) = firstRepeated seen (names ++ rest) := by
  induction names generalizing seen with
  | nil =>
      rw [List.nil_append, List.nil_append, firstRepeated, if_neg fresh]
      refine firstRepeated_congr fun other member => ?_
      have different : other ≠ name := fun same => absent (same ▸ member)
      rw [List.mem_cons, or_iff_right different]
  | cons head names ih =>
      rw [List.cons_append, List.mem_cons, not_or] at absent
      have stillFresh : name ∉ head :: seen := by
        rw [List.mem_cons, not_or]
        exact ⟨absent.1, fresh⟩
      rw [List.cons_append, List.cons_append, firstRepeated, firstRepeated,
        ih stillFresh absent.2]

/-- A keyword for a requested parameter is not left over. -/
theorem leftover_insert {p : Parameter} (parameters : List Parameter)
    (absent : p.name ∉ (before ++ after).map (·.1)) :
    leftover (p :: parameters) (before ++ (p.name, value) :: after) =
      leftover parameters (before ++ after) := by
  have others : leftover (p :: parameters) (before ++ after) =
      leftover parameters (before ++ after) := by
    refine List.filter_congr fun entry member => ?_
    have different : entry.1 ≠ p.name := fun same =>
      absent (List.mem_map.mpr ⟨entry, member, same⟩)
    simp [different]
  rw [← others]
  simp [leftover, List.filter_append]

theorem lacks_insert {p : Parameter} (different : p.name ≠ name) :
    lacks (before ++ (name, value) :: after) p = lacks (before ++ after) p := by
  rw [lacks, lacks, decide_eq_decide.mpr (not_congr (mem_names_insert different))]

end Inserted

theorem filled_append_requested_sublist {s : Signature} {a : Arguments} :
    (filled s a ++ requested s a).Sublist s.parameters := by
  rw [parameters_eq_filled_append (a := a), requested]
  refine List.Sublist.append_left (List.Sublist.append_left ?_ _) _
  exact List.sublist_append_of_sublist_right (List.sublist_append_left _ _)

section ByPosition

variable {function : Name} {s : Signature} {p : Parameter} {values : List Value} (value : Value)
  {before after : Pool}

/-- The parameter that is given by keyword is the first one requested. -/
theorem unfilled_eq_cons (place : s.positional[values.length]? = some p) (keywords other : Pool) :
    unfilled s ⟨values, other⟩ = p :: unfilled s ⟨values ++ [value], keywords⟩ := by
  obtain ⟨inside, same⟩ := List.getElem?_eq_some_iff.mp place
  rw [unfilled, unfilled, List.drop_eq_getElem_cons inside, same, List.length_append,
    List.length_singleton]

theorem requested_eq_cons (place : s.positional[values.length]? = some p) (keywords other : Pool) :
    requested s ⟨values, other⟩ = p :: requested s ⟨values ++ [value], keywords⟩ := by
  rw [requested, requested, unfilled_eq_cons value place keywords other, List.cons_append]

theorem filled_eq_concat (place : s.positional[values.length]? = some p) (keywords other : Pool) :
    filled s ⟨values ++ [value], keywords⟩ = filled s ⟨values, other⟩ ++ [p] := by
  rw [filled, filled, List.length_append, List.length_singleton, List.take_add_one, place]
  rfl

/-- No other parameter has the name of the one in question. -/
theorem name_ne_of_mem (place : s.positional[values.length]? = some p) (keywords other : Pool) :
    ∀ q ∈ filled s ⟨values, other⟩ ++ requested s ⟨values ++ [value], keywords⟩,
      q.name ≠ p.name := by
  have inside : (filled s ⟨values, other⟩ ++ requested s ⟨values, other⟩).Sublist
      s.parameters := filled_append_requested_sublist
  rw [requested_eq_cons value place keywords other] at inside
  have distinct := (List.perm_middle.map _).nodup_iff.mp (s.names_nodup.sublist (inside.map _))
  intro q member same
  exact (List.nodup_cons.mp distinct).1 (List.mem_map.mpr ⟨q, member, same⟩)

/-- Neither call has more positional arguments than there are positional parameters. -/
theorem lengths_of_place (place : s.positional[values.length]? = some p) :
    values.length ≤ s.positional.length ∧ (values ++ [value]).length ≤ s.positional.length := by
  obtain ⟨inside, _⟩ := List.getElem?_eq_some_iff.mp place
  rw [List.length_append, List.length_singleton]
  omega

theorem fits_of_place (place : s.positional[values.length]? = some p) (keywords other : Pool) :
    Fits s ⟨values ++ [value], keywords⟩ ∧ Fits s ⟨values, other⟩ := by
  obtain ⟨few, whole⟩ := lengths_of_place value place
  exact ⟨.inl whole, .inl few⟩

variable (place : s.positional[values.length]? = some p)

include place

theorem find?_requested_by_position :
    (requested s ⟨values ++ [value], before ++ after⟩).find? (lacks (before ++ after)) =
      (requested s ⟨values, before ++ (p.name, value) :: after⟩).find?
        (lacks (before ++ (p.name, value) :: after)) := by
  have supplied : ¬ lacks (before ++ (p.name, value) :: after) p = true := by
    simp [lacks]
  rw [requested_eq_cons value place (before ++ after),
    List.find?_cons_of_neg supplied]
  refine List.find?_congr fun q member => ?_
  have different := name_ne_of_mem value place (before ++ after)
    (before ++ (p.name, value) :: after) q (List.mem_append_right _ member)
  exact (lacks_insert different).symm

/-- The positional arguments that go to positional parameters, with the last one by keyword. -/
theorem zip_filled_by_position (keywords other : Pool) :
    ((filled s ⟨values ++ [value], keywords⟩).map (·.name)).zip
        ((values ++ [value]).take s.positional.length) =
      ((filled s ⟨values, other⟩).map (·.name)).zip (values.take s.positional.length) ++
        [(p.name, value)] := by
  obtain ⟨few, whole⟩ := lengths_of_place value place
  have matched : ((filled s ⟨values, other⟩).map (·.name)).length = values.length := by
    rw [List.length_map, filled, List.length_take_of_le few]
  rw [filled_eq_concat value place keywords other, List.take_of_length_le whole,
    List.take_of_length_le few, List.map_append, List.zip_append matched]
  rfl

theorem overflow_by_position :
    (values ++ [value]).drop s.positional.length = values.drop s.positional.length := by
  obtain ⟨few, whole⟩ := lengths_of_place value place
  rw [List.drop_eq_nil_of_le few, List.drop_eq_nil_of_le whole]

variable (absent : p.name ∉ (before ++ after).map (·.1))

include absent

theorem find?_filled_by_position :
    (filled s ⟨values ++ [value], before ++ after⟩).find?
        (·.name ∈ given ⟨values ++ [value], before ++ after⟩) =
      (filled s ⟨values, before ++ (p.name, value) :: after⟩).find?
        (·.name ∈ given ⟨values, before ++ (p.name, value) :: after⟩) := by
  have notGiven : [p].find? (·.name ∈ given ⟨values ++ [value], before ++ after⟩) = none :=
    List.find?_cons_of_neg fun known => absent (of_decide_eq_true known)
  rw [filled_eq_concat value place (before ++ after) (before ++ (p.name, value) :: after),
    List.find?_append, notGiven, Option.or_none]
  refine List.find?_congr fun q member => decide_eq_decide.mpr ?_
  have different := name_ne_of_mem value place (before ++ after)
    (before ++ (p.name, value) :: after) q (List.mem_append_left _ member)
  exact (mem_names_insert different).symm

/-- Both calls break the same rule first. -/
theorem fault_by_position :
    fault function s ⟨values ++ [value], before ++ after⟩ =
      fault function s ⟨values, before ++ (p.name, value) :: after⟩ := by
  have sameRepeat :
      firstRepeated [] (given ⟨values, before ++ (p.name, value) :: after⟩) =
        firstRepeated [] (given ⟨values ++ [value], before ++ after⟩) := by
    rw [given, given, List.map_append, List.map_cons, List.map_append]
    exact firstRepeated_insert List.not_mem_nil (by rwa [List.map_append] at absent)
  cases repeated : firstRepeated [] (given ⟨values ++ [value], before ++ after⟩) with
  | some keyword =>
      rw [fault_of_repeated repeated, fault_of_repeated (sameRepeat.trans repeated)]
  | none =>
      have distinct := (firstRepeated_eq_none_iff.mp repeated).1
      have distinctToo := (firstRepeated_eq_none_iff.mp (sameRepeat.trans repeated)).1
      obtain ⟨fits, fitsToo⟩ := fits_of_place value place (before ++ after)
        (before ++ (p.name, value) :: after)
      rw [fault_of_fits distinct fits, fault_of_fits distinctToo fitsToo,
        find?_filled_by_position value place absent, find?_requested_by_position value place,
        requested_eq_cons value place (before ++ after), leftover_insert _ absent]

/-- The parameter takes its keyword; the parameters after it do not see that one. -/
theorem supplyAll_by_position (heap : Heap) :
    supplyAll (before ++ (p.name, value) :: after)
        (unfilled s ⟨values, before ++ (p.name, value) :: after⟩) heap =
      ((p.name, value) :: (supplyAll (before ++ after)
          (unfilled s ⟨values ++ [value], before ++ after⟩) heap).1,
        (supplyAll (before ++ after)
          (unfilled s ⟨values ++ [value], before ++ after⟩) heap).2) := by
  have others : supplyAll (before ++ (p.name, value) :: after)
      (unfilled s ⟨values ++ [value], before ++ after⟩) =
        supplyAll (before ++ after) (unfilled s ⟨values ++ [value], before ++ after⟩) :=
    supplyAll_congr fun q member => by
      have different := name_ne_of_mem value place (before ++ after)
        (before ++ (p.name, value) :: after) q
        (List.mem_append_right _ (List.mem_append_left _ member))
      exact Table.lookup_insert_of_ne different.symm
  rw [unfilled_eq_cons value place (before ++ after), supplyAll, supply,
    lookup_insert_self absent]
  simp only [others]

/-- Both calls bind the same values in the same heap. -/
theorem bound_by_position (heap : Heap) :
    bound s ⟨values ++ [value], before ++ after⟩ heap =
      bound s ⟨values, before ++ (p.name, value) :: after⟩ heap := by
  have only : supplyAll (before ++ (p.name, value) :: after) s.keywordOnly =
      supplyAll (before ++ after) s.keywordOnly :=
    supplyAll_congr fun q member => by
      have different := name_ne_of_mem value place (before ++ after)
        (before ++ (p.name, value) :: after) q
        (List.mem_append_right _ (List.mem_append_right _ member))
      exact Table.lookup_insert_of_ne different.symm
  simp only [bound]
  rw [zip_filled_by_position value place (before ++ after) (before ++ (p.name, value) :: after),
    overflow_by_position value place, supplyAll_by_position value place absent,
    requested_eq_cons value place (before ++ after), leftover_insert _ absent, only]
  simp only [List.append_assoc, List.cons_append, List.nil_append]

/--
The next positional parameter may as well be given by keyword, anywhere among
the keywords.  In one heap the two calls give exactly the same; in two heaps
they differ in the identities of new objects.
-/
theorem bind_position_eq_keyword :
    (∀ heap, bind function s ⟨values ++ [value], before ++ after⟩ heap =
        bind function s ⟨values, before ++ (p.name, value) :: after⟩ heap) ∧
      ∀ left right, SameOutcome s ⟨values, before ++ (p.name, value) :: after⟩ left right
        (bind function s ⟨values ++ [value], before ++ after⟩ left)
        (bind function s ⟨values, before ++ (p.name, value) :: after⟩ right) := by
  have inOneHeap : ∀ heap, bind function s ⟨values ++ [value], before ++ after⟩ heap =
      bind function s ⟨values, before ++ (p.name, value) :: after⟩ heap := fun heap => by
    rw [bind_eq, bind_eq, fault_by_position value place absent,
      bound_by_position value place absent]
  refine ⟨inOneHeap, fun left right => ?_⟩
  rw [inOneHeap left]
  exact bind_sameOutcome function s _ left right

end ByPosition

theorem bind_second_by_keyword :
    bind "f" everyKind ⟨[.int 1, .tuple []], [("flag", .bool true), ("other", .none)]⟩ {} =
        bind "f" everyKind
          ⟨[.int 1], [("flag", .bool true), ("second", .tuple []), ("other", .none)]⟩ {} ∧
      ∃ result, bind "f" everyKind
        ⟨[.int 1, .tuple []], [("flag", .bool true), ("other", .none)]⟩ {} = .ok result := by
  have place : everyKind.positional[[Value.int 1].length]? =
      some ⟨"second", .positional, some (.fresh .emptyList)⟩ := rfl
  have absent : "second" ∉ ([("flag", Value.bool true)] ++ [("other", Value.none)]).map (·.1) := by
    decide
  exact ⟨(bind_position_eq_keyword (.tuple []) place absent).1 {}, _, rfl⟩

/-! ## Keywords in another order -/

/-- Causes of one kind that differ at most in the keyword that was met first. -/
inductive SameKind : Cause → Cause → Prop where
  | same (cause : Cause) : SameKind cause cause
  | repeatedKeyword (function first second : Name) :
      SameKind (.repeatedKeyword function first) (.repeatedKeyword function second)
  | unexpectedKeyword (function first second : Name) :
      SameKind (.unexpectedKeyword function first) (.unexpectedKeyword function second)

section Reordered

variable {function : Name} {s : Signature} {values : List Value} {keywords other : Pool}
  (reordered : keywords.Perm other)

include reordered

theorem lacks_perm : lacks keywords = lacks other := by
  funext p
  rw [lacks, lacks, decide_eq_decide.mpr (not_congr (reordered.map _).mem_iff)]

theorem leftover_perm (parameters : List Parameter) :
    (leftover parameters keywords).Perm (leftover parameters other) :=
  reordered.filter _

theorem unexpected_perm (collector : Option Parameter) :
    Option.Rel SameKind (unexpected function collector keywords)
      (unexpected function collector other) := by
  cases collector with
  | some p => exact .none
  | none =>
      cases keywords with
      | nil =>
          rw [List.nil_perm.mp reordered]
          exact .none
      | cons first rest =>
          cases other with
          | nil => cases reordered.eq_nil
          | cons second others => exact .some (.unexpectedKeyword function first.1 second.1)

/-- The same check fails first, whatever the order of the keywords. -/
theorem fault_perm :
    Option.Rel SameKind (fault function s ⟨values, keywords⟩)
      (fault function s ⟨values, other⟩) := by
  have names : (given ⟨values, keywords⟩).Perm (given ⟨values, other⟩) := reordered.map _
  have sameFilled : (filled s ⟨values, keywords⟩).find? (·.name ∈ given ⟨values, keywords⟩) =
      (filled s ⟨values, other⟩).find? (·.name ∈ given ⟨values, other⟩) :=
    List.find?_congr fun _ _ => decide_eq_decide.mpr names.mem_iff
  have sameRequested : requested s ⟨values, keywords⟩ = requested s ⟨values, other⟩ := rfl
  by_cases distinct : (given ⟨values, keywords⟩).Nodup
  · have distinctToo := names.nodup_iff.mp distinct
    by_cases fits : Fits s ⟨values, keywords⟩
    · rw [fault_of_fits distinct fits, fault_of_fits distinctToo fits, sameFilled,
        lacks_perm reordered, sameRequested]
      cases (filled s ⟨values, other⟩).find? (·.name ∈ given ⟨values, other⟩) with
      | some p => exact .some (.same _)
      | none =>
          cases (requested s ⟨values, other⟩).find? (lacks other) with
          | some p => exact .some (.same _)
          | none => exact unexpected_perm (leftover_perm reordered _) s.keywordCollector?
    · rw [fault_of_overflow distinct fits, fault_of_overflow distinctToo fits]
      exact .some (.same _)
  · have repeats {given : List Name} (twice : ¬ given.Nodup) :
        ∃ keyword, firstRepeated [] given = some keyword := by
      refine Option.ne_none_iff_exists'.mp fun none => ?_
      exact twice (firstRepeated_eq_none_iff.mp none).1
    obtain ⟨first, repeated⟩ := repeats distinct
    obtain ⟨second, again⟩ := repeats (mt names.nodup_iff.mpr distinct)
    rw [fault_of_repeated repeated, fault_of_repeated again]
    exact .some (.repeatedKeyword function first second)

/-- Where no keyword is repeated, nothing but the keyword collector sees their order. -/
theorem settled_perm (distinct : (given ⟨values, keywords⟩).Nodup) (heap : Heap) :
    settled s ⟨values, keywords⟩ heap = settled s ⟨values, other⟩ heap := by
  have supplied (parameters : List Parameter) :
      supplyAll keywords parameters = supplyAll other parameters :=
    supplyAll_congr fun _ _ => Table.lookup_perm reordered distinct
  simp only [settled, supplied]
  rfl

end Reordered

/-- All parameters but the keyword collector are settled, in their order. -/
theorem names_settled (s : Signature) (a : Arguments) (heap : Heap) :
    (settled s a heap).1.map (·.1) = (filled s a ++ unfilled s a ++ s.variadic?.toList ++
      s.keywordOnly).map (·.name) := by
  simp only [settled, List.map_append, names_supplyAll, names_collectValues]
  rw [List.map_fst_zip (by simp [length_filled])]

/-- The slot that a parameter other than the keyword collector has in two calls. -/
theorem exists_slots {s : Signature} {a : Arguments} {heap left leftAfter right rightAfter : Heap}
    {slots : List (Name × Value)} {p : Parameter}
    (same : List.Forall₂ (SameSlot left leftAfter right rightAfter) (settled s a heap).1 slots)
    (member : p ∈ s.parameters) (plain : p.kind ≠ .keywordCollector) :
    ∃ first second, (p.name, first) ∈ (settled s a heap).1 ∧ (p.name, second) ∈ slots ∧
      Heap.Counterparts left leftAfter right rightAfter first second := by
  have settledNames : p.name ∈ (settled s a heap).1.map (·.1) := by
    rw [names_settled]
    rw [parameters_eq_filled_append (a := a)] at member
    simp only [← List.append_assoc] at member
    rcases List.mem_append.mp member with early | last
    · exact List.mem_map.mpr ⟨p, early, rfl⟩
    · exact absurd (Signature.kind_of_keywordCollector? (Option.mem_toList.mp last)) plain
  obtain ⟨⟨name, first⟩, slot, rfl⟩ := List.mem_map.mp settledNames
  obtain ⟨⟨_, second⟩, pair, rfl, counterparts⟩ := exists_sameSlot same slot
  exact ⟨first, second, slot, pair, counterparts⟩

/-- How a call ends after its keywords were put in another order. -/
inductive ReorderedOutcome (s : Signature) (a b : Arguments) (left right : Heap) :
    Except Error (Bindings × Heap) → Except Error (Bindings × Heap) → Prop where
  | bound {first second : Bindings} {leftAfter rightAfter : Heap}
      (parallel : Heap.Parallel left leftAfter right rightAfter)
      (names : first.slots.map (·.1) = s.parameters.map (·.name))
      (sameNames : second.slots.map (·.1) = s.parameters.map (·.name))
      (others : ∀ p ∈ s.parameters, p.kind ≠ .keywordCollector → ∃ x y,
        first.get? p.name = some x ∧ second.get? p.name = some y ∧
          Heap.Counterparts left leftAfter right rightAfter x y)
      (collector : ∀ p ∈ s.keywordCollector?, ∃ x y,
        first.get? p.name = some x ∧ second.get? p.name = some y ∧
          Heap.MadeTogether left leftAfter right rightAfter .dict
            x (.mapping (collectedMapping s a)) y (.mapping (collectedMapping s b)))
      (pairs : (collectedMapping s a).entries.Perm (collectedMapping s b).entries) :
      ReorderedOutcome s a b left right (.ok (first, leftAfter)) (.ok (second, rightAfter))
  | refused {cause other : Cause} (alike : SameKind cause other) :
      ReorderedOutcome s a b left right (.error (.ofCause cause)) (.error (.ofCause other))

theorem collectedMapping_perm {s : Signature} {a b : Arguments}
    (reordered : a.keywords.Perm b.keywords) :
    (collectedMapping s a).entries.Perm (collectedMapping s b).entries :=
  (leftover_perm reordered _).map _

section Outcome

variable {s : Signature} {values : List Value} {keywords other : Pool} {left right : Heap}
  (reordered : keywords.Perm other) (distinct : (given ⟨values, keywords⟩).Nodup)

include reordered distinct

theorem settled_reordered :
    Heap.Parallel left (settled s ⟨values, keywords⟩ left).2 right
        (settled s ⟨values, other⟩ right).2 ∧
      List.Forall₂ (SameSlot left (settled s ⟨values, keywords⟩ left).2 right
          (settled s ⟨values, other⟩ right).2)
        (settled s ⟨values, keywords⟩ left).1 (settled s ⟨values, other⟩ right).1 := by
  rw [← settled_perm reordered distinct right]
  exact settled_parallel (.start left right) s ⟨values, keywords⟩

theorem parallel_reordered :
    Heap.Parallel left (bound s ⟨values, keywords⟩ left).2 right
      (bound s ⟨values, other⟩ right).2 :=
  collectKeywords_parallel (settled_reordered reordered distinct).1 s.keywordCollector? _ _

/-- Parameters other than the keyword collector hold counterparts. -/
theorem counterparts_reordered {p : Parameter} (member : p ∈ s.parameters)
    (plain : p.kind ≠ .keywordCollector) :
    ∃ x y, (p.name, x) ∈ (bound s ⟨values, keywords⟩ left).1 ∧
      (p.name, y) ∈ (bound s ⟨values, other⟩ right).1 ∧
      Heap.Counterparts left (bound s ⟨values, keywords⟩ left).2 right
        (bound s ⟨values, other⟩ right).2 x y := by
  obtain ⟨x, y, first, second, counterparts⟩ :=
    exists_slots (settled_reordered reordered distinct).2 member plain
  refine ⟨x, y, List.mem_append_left _ first, List.mem_append_left _ second, ?_⟩
  exact counterparts.mono (collectKeywords_extends s.keywordCollector? _ _)
    (collectKeywords_extends s.keywordCollector? _ _)

end Outcome

theorem outcome_of_accepts {s : Signature} {values : List Value} {keywords other : Pool}
    (reordered : keywords.Perm other) (accepts : Accepts s ⟨values, keywords⟩)
    (acceptsToo : Accepts s ⟨values, other⟩) (left right : Heap) :
    ReorderedOutcome s ⟨values, keywords⟩ ⟨values, other⟩ left right
      (.ok (⟨(bound s ⟨values, keywords⟩ left).1⟩, (bound s ⟨values, keywords⟩ left).2))
      (.ok (⟨(bound s ⟨values, other⟩ right).1⟩, (bound s ⟨values, other⟩ right).2)) := by
  refine .bound (parallel_reordered reordered accepts.distinct) (names_bound left)
    (names_bound right) ?_ ?_ (collectedMapping_perm reordered)
  · intro p member plain
    obtain ⟨x, y, here, there, counterparts⟩ :=
      counterparts_reordered reordered accepts.distinct member plain
    exact ⟨x, y, get?_bound here, get?_bound there, counterparts⟩
  · intro p declared
    have before : Heap.Parallel left (settled s ⟨values, keywords⟩ left).2 right
        (settled s ⟨values, other⟩ right).2 := (settled_reordered reordered accepts.distinct).1
    obtain ⟨x, y, here, there, together⟩ :=
      collector_together before accepts acceptsToo declared
    exact ⟨x, y, get?_bound here, get?_bound there, together⟩

/--
The order of keywords decides nothing but the order of the mapping that
collects them, and which of several wrong keywords an error names.
-/
theorem bind_reordered {keywords other : Pool} (reordered : keywords.Perm other)
    (function : Name) (s : Signature) (values : List Value) (left right : Heap) :
    ReorderedOutcome s ⟨values, keywords⟩ ⟨values, other⟩ left right
      (bind function s ⟨values, keywords⟩ left) (bind function s ⟨values, other⟩ right) := by
  have checks : Option.Rel SameKind (fault function s ⟨values, keywords⟩)
      (fault function s ⟨values, other⟩) := fault_perm reordered
  rw [bind_eq, bind_eq]
  generalize first : fault function s ⟨values, keywords⟩ = here at checks ⊢
  generalize second : fault function s ⟨values, other⟩ = there at checks ⊢
  cases checks with
  | some alike => exact .refused alike
  | none =>
      have accepts := fault_eq_none_iff.mp first
      have acceptsToo := fault_eq_none_iff.mp second
      exact outcome_of_accepts reordered accepts acceptsToo left right

theorem bind_reordered_every_kind :
    ∃ first second, bind "f" everyKind ⟨[.int 1], [("flag", .none), ("other", .int 2)]⟩ {} =
        .ok first ∧
      bind "f" everyKind ⟨[.int 1], [("other", .int 2), ("flag", .none)]⟩ {} = .ok second ∧
      ReorderedOutcome everyKind ⟨[.int 1], [("flag", .none), ("other", .int 2)]⟩
        ⟨[.int 1], [("other", .int 2), ("flag", .none)]⟩ {} {} (.ok first) (.ok second) :=
  ⟨_, _, rfl, rfl, bind_reordered (.swap _ _ _) "f" everyKind [.int 1] {} {}⟩

end Binding

end ScriptCore
