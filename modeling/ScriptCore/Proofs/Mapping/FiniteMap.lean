import ScriptCore.Binding
import ScriptCore.Proofs.Value.Equality

/-!
# Mappings as finite maps

A mapping is searched with an equality that identifies more than the same keys.
Where no key contains a floating point number that equality is an equivalence,
and a mapping is a finite map on its classes.  The entry of a class keeps the
first key and the place at which it was inserted.
-/

namespace ScriptCore

namespace Mapping

/-- The mappings that insertions and removals lead to. -/
inductive Built : Mapping → Prop where
  | empty : Built ∅
  | insert {mapping : Mapping} (built : Built mapping) (key value : Value) :
      Built (mapping.insert key value)
  | remove {mapping : Mapping} (built : Built mapping) (key : Value) :
      Built (mapping.remove key).2

/-- The keys, in the order in which they were first inserted. -/
def keys (mapping : Mapping) : List Value := mapping.entries.map Prod.fst

/-- No key contains a floating point number. -/
def Exact (mapping : Mapping) : Prop := ∀ key ∈ mapping.keys, key.FloatFree

instance (mapping : Mapping) : Decidable mapping.Exact :=
  inferInstanceAs (Decidable (∀ key ∈ mapping.keys, key.FloatFree))

variable {mapping : Mapping} {key other value : Value} {entries pairs : List (Value × Value)}

/-! ## Any keys -/

theorem any_keys (mapping : Mapping) (key : Value) :
    (mapping.keys.any fun other => other.equal key) = mapping.contains key := by
  rw [keys, List.any_map]
  rfl

theorem keys_put : (put key value entries).map Prod.fst =
    if (entries.any fun entry => entry.1.equal key) = true then entries.map Prod.fst
    else entries.map Prod.fst ++ [key] := by
  induction entries with
  | nil => rfl
  | cons entry rest ih =>
      obtain ⟨head, old⟩ := entry
      rw [put, List.any_cons]
      split
      · rename_i same
        simp [same]
      · rename_i different
        rw [List.map_cons, ih, Bool.eq_false_iff.mpr different, Bool.false_or]
        split
        · rfl
        · rfl

/-- An insertion adds its key at the end, unless an equal key is there already. -/
theorem keys_insert (mapping : Mapping) (key value : Value) :
    (mapping.insert key value).keys =
      if mapping.contains key = true then mapping.keys else mapping.keys ++ [key] := keys_put

theorem take_sublist (key : Value) (entries : List (Value × Value)) :
    (take key entries).2.Sublist entries := by
  induction entries with
  | nil => exact .slnil
  | cons entry rest ih =>
      obtain ⟨head, old⟩ := entry
      rw [take]
      split
      · exact .cons _ (List.Sublist.refl rest)
      · exact ih.cons_cons _

theorem keys_remove_sublist (mapping : Mapping) (key : Value) :
    (mapping.remove key).2.keys.Sublist mapping.keys :=
  (take_sublist key mapping.entries).map Prod.fst

theorem take_fst (key : Value) (entries : List (Value × Value)) :
    (take key entries).1 = find key entries := by
  induction entries with
  | nil => rfl
  | cons entry rest ih =>
      obtain ⟨head, old⟩ := entry
      rw [take, find]
      split
      · rfl
      · exact ih

/-- What is removed is what was found under the key. -/
theorem remove_fst (mapping : Mapping) (key : Value) :
    (mapping.remove key).1 = mapping.get? key := take_fst key mapping.entries

theorem any_eq_isSome_find (key : Value) (entries : List (Value × Value)) :
    (entries.any fun entry => entry.1.equal key) = (find key entries).isSome := by
  induction entries with
  | nil => rfl
  | cons entry rest ih =>
      obtain ⟨head, old⟩ := entry
      rw [List.any_cons, find, ih]
      split
      · rename_i same
        simp [same]
      · rename_i different
        simp [different]

theorem contains_eq (mapping : Mapping) (key : Value) :
    mapping.contains key = (mapping.get? key).isSome := any_eq_isSome_find key mapping.entries

/-- No two keys are equal, whatever has been inserted and removed. -/
theorem Built.distinct (built : mapping.Built) :
    mapping.keys.Pairwise fun a b => a.equal b = false := by
  induction built with
  | empty => exact .nil
  | @insert mapping _ key value ih =>
      rw [keys_insert]
      split
      · exact ih
      · rename_i new
        rw [← any_keys, List.any_eq_true] at new
        refine List.pairwise_append.mpr ⟨ih, List.pairwise_singleton _ _, fun other old last only => ?_⟩
        rw [List.mem_singleton.mp only]
        exact Bool.eq_false_iff.mpr fun same => new ⟨other, old, same⟩
  | @remove mapping _ key ih => exact ih.sublist (keys_remove_sublist mapping key)

/-! ## Keys without floating point numbers -/

theorem find_put (exact : ∀ entry ∈ entries, entry.1.FloatFree) (keyExact : key.FloatFree)
    (otherExact : other.FloatFree) : find other (put key value entries) =
      if key.equal other = true then some value else find other entries := by
  induction entries with
  | nil => rfl
  | cons entry rest ih =>
      obtain ⟨head, old⟩ := entry
      have headExact : head.FloatFree := exact _ List.mem_cons_self
      have later := ih fun entry member => exact entry (List.mem_cons_of_mem _ member)
      rw [put]
      split
      · rename_i same
        rw [find, find, headExact.equal_congr keyExact otherExact same]
        split
        · rfl
        · rfl
      · rename_i different
        rw [find, find, later]
        split
        · rename_i found
          rw [if_neg (headExact.not_equal_other keyExact otherExact different found)]
        · rfl

/-- Nothing is found among keys that are unlike an equal key. -/
theorem find_eq_none (exact : ∀ entry ∈ entries, entry.1.FloatFree) (keyExact : key.FloatFree)
    (otherExact : other.FloatFree) (same : key.equal other = true)
    (apart : ∀ entry ∈ entries, key.equal entry.1 = false) : find other entries = none := by
  rw [← Option.isNone_iff_eq_none, ← Option.isSome_eq_false_iff, ← any_eq_isSome_find,
    List.any_eq_false]
  intro entry member
  have different := Bool.eq_false_iff.mp (apart entry member)
  exact keyExact.not_equal_other (exact entry member) otherExact different same

theorem find_take (exact : ∀ entry ∈ entries, entry.1.FloatFree)
    (distinct : entries.Pairwise fun a b => a.1.equal b.1 = false) (keyExact : key.FloatFree)
    (otherExact : other.FloatFree) : find other (take key entries).2 =
      if key.equal other = true then none else find other entries := by
  induction entries with
  | nil => simp [take, find]
  | cons entry rest ih =>
      obtain ⟨head, old⟩ := entry
      have headExact : head.FloatFree := exact _ List.mem_cons_self
      have restExact : ∀ entry ∈ rest, entry.1.FloatFree := fun entry member =>
        exact entry (List.mem_cons_of_mem _ member)
      obtain ⟨apart, distinct⟩ := List.pairwise_cons.mp distinct
      rw [take]
      split
      · rename_i same
        rw [find, headExact.equal_congr keyExact otherExact same]
        split
        · rename_i found
          rw [← headExact.equal_congr keyExact otherExact same] at found
          exact find_eq_none restExact headExact otherExact found apart
        · rfl
      · rename_i different
        rw [find, find, ih restExact distinct]
        split
        · rename_i found
          rw [if_neg (headExact.not_equal_other keyExact otherExact different found)]
        · rfl

theorem Exact.entryKeys (exact : mapping.Exact) : ∀ entry ∈ mapping.entries, entry.1.FloatFree :=
  fun _ member => exact _ (List.mem_map_of_mem member)

theorem Exact.insert (exact : mapping.Exact) (keyExact : key.FloatFree) (value : Value) :
    (mapping.insert key value).Exact := by
  intro other member
  rw [keys_insert] at member
  split at member
  · exact exact other member
  · rcases List.mem_append.mp member with old | new
    · exact exact other old
    · rw [List.mem_singleton.mp new]
      exact keyExact

theorem Exact.get?_insert (exact : mapping.Exact) (keyExact : key.FloatFree)
    (otherExact : other.FloatFree) : (mapping.insert key value).get? other =
      if key.equal other = true then some value else mapping.get? other :=
  find_put exact.entryKeys keyExact otherExact

theorem Exact.get?_remove (exact : mapping.Exact) (built : mapping.Built) (keyExact : key.FloatFree)
    (otherExact : other.FloatFree) : (mapping.remove key).2.get? other =
      if key.equal other = true then none else mapping.get? other :=
  find_take exact.entryKeys (List.pairwise_map.mp built.distinct) keyExact otherExact

/-! ## Classes of keys -/

/-- The keys without floating point numbers that a mapping cannot tell from `key`. -/
def keyClass (key : Value) : Set Value := { other | other.FloatFree ∧ key.equal other = true }

/-- The classes whose keys are in a mapping. -/
def classes (mapping : Mapping) : Set (Set Value) :=
  keyClass '' { key | key.FloatFree ∧ mapping.contains key = true }

theorem keyClass_eq_iff (keyExact : key.FloatFree) (otherExact : other.FloatFree) :
    keyClass key = keyClass other ↔ key.equal other = true := by
  constructor
  · intro same
    have member : other ∈ keyClass other := ⟨otherExact, otherExact.equal_self⟩
    rw [← same] at member
    exact member.2
  · intro same
    ext third
    refine and_congr_right fun thirdExact => ?_
    rw [keyExact.equal_congr otherExact thirdExact same]

theorem Exact.classes_eq (exact : mapping.Exact) :
    mapping.classes = { members | members ∈ mapping.keys.map keyClass } := by
  ext members
  refine Iff.trans ?_ List.mem_map.symm
  constructor
  · rintro ⟨key, ⟨keyExact, known⟩, rfl⟩
    rw [← any_keys, List.any_eq_true] at known
    obtain ⟨stored, member, same⟩ := known
    exact ⟨stored, member, (keyClass_eq_iff (exact stored member) keyExact).mpr same⟩
  · rintro ⟨stored, member, rfl⟩
    refine ⟨stored, ⟨exact stored member, ?_⟩, rfl⟩
    rw [← any_keys, List.any_eq_true]
    exact ⟨stored, member, (exact stored member).equal_self⟩

theorem Exact.nodup_classes (exact : mapping.Exact) (built : mapping.Built) :
    (mapping.keys.map keyClass).Nodup := by
  refine List.pairwise_map.mpr (built.distinct.imp_of_mem ?_)
  intro key other left right different same
  rw [keyClass_eq_iff (exact key left) (exact other right), different] at same
  cases same

/-- There are as many entries as classes. -/
theorem Exact.encard_classes (exact : mapping.Exact) (built : mapping.Built) :
    mapping.classes.encard = mapping.size := by
  classical
  rw [exact.classes_eq, ← List.coe_toFinset, Set.encard_coe_eq_coe_finsetCard,
    List.toFinset_card_of_nodup (exact.nodup_classes built), List.length_map, keys, List.length_map]
  rfl

/-! ## Mappings from pairs -/

theorem ofPairs_concat (pairs : List (Value × Value)) (pair : Value × Value) :
    ofPairs (pairs ++ [pair]) = (ofPairs pairs).insert pair.1 pair.2 := by
  rw [ofPairs, List.foldl_append]
  rfl

theorem built_ofPairs (pairs : List (Value × Value)) : (ofPairs pairs).Built := by
  induction pairs using List.reverseRecOn with
  | nil => exact .empty
  | append_singleton pairs pair ih =>
      rw [ofPairs_concat]
      exact ih.insert pair.1 pair.2

theorem exact_ofPairs (exact : ∀ pair ∈ pairs, pair.1.FloatFree) : (ofPairs pairs).Exact := by
  induction pairs using List.reverseRecOn with
  | nil => exact nofun
  | append_singleton pairs pair ih =>
      rw [ofPairs_concat]
      have earlier := ih fun other member => exact other (List.mem_append_left _ member)
      exact earlier.insert (exact pair (List.mem_append_right _ List.mem_cons_self)) pair.2

/-- Each class keeps its first key, at the place of that key. -/
theorem keys_ofPairs (pairs : List (Value × Value)) :
    (ofPairs pairs).keys = (pairs.map Prod.fst).eraseDupsBy Value.equal := by
  suffices onto : ∀ mapping : Mapping,
      (pairs.foldl (fun mapping pair => mapping.insert pair.1 pair.2) mapping).keys =
        List.eraseDupsBy.loop Value.equal (pairs.map Prod.fst) mapping.keys.reverse from onto ∅
  induction pairs with
  | nil =>
      intro mapping
      exact (List.reverse_reverse _).symm
  | cons pair rest ih =>
      intro mapping
      have known : (mapping.keys.reverse.any fun other => pair.1.equal other) =
          mapping.contains pair.1 := by
        rw [List.any_reverse, ← any_keys]
        simp only [Value.equal_comm pair.1]
      rw [List.foldl_cons, ih, keys_insert, List.map_cons, List.eraseDupsBy.loop, known]
      cases mapping.contains pair.1 with
      | true => rfl
      | false => rw [if_neg nofun, List.reverse_append, List.reverse_singleton,
          List.singleton_append]

/-- Each class keeps the last of its values. -/
theorem get?_ofPairs (exact : ∀ pair ∈ pairs, pair.1.FloatFree) (keyExact : key.FloatFree) :
    (ofPairs pairs).get? key = (pairs.reverse.find? fun pair => pair.1.equal key).map Prod.snd := by
  induction pairs using List.reverseRecOn with
  | nil => rfl
  | append_singleton pairs pair ih =>
      have earlier : ∀ pair ∈ pairs, pair.1.FloatFree := fun other member =>
        exact other (List.mem_append_left _ member)
      have last := exact pair (List.mem_append_right _ List.mem_cons_self)
      rw [ofPairs_concat, (exact_ofPairs earlier).get?_insert last keyExact, ih earlier,
        List.reverse_concat, List.find?_cons]
      split
      · rename_i same
        rw [same]
        rfl
      · rename_i different
        rw [Bool.eq_false_iff.mpr different]

theorem exact_collected (pool : Binding.Pool) : (Binding.collected pool).Exact :=
  exact_ofPairs fun pair member => by
    obtain ⟨⟨name, value⟩, _, rfl⟩ := List.mem_map.mp member
    rfl

/-- A copy has the same entries in the same order. -/
theorem Built.copy (built : mapping.Built) : ofPairs mapping.entries = mapping := by
  have same := entries_ofPairs (List.pairwise_map.mp built.distinct)
  cases mapping
  exact congrArg Mapping.mk same

/-! ## The laws of finite maps -/

/-- The laws of a finite map whose keys are classes of keys. -/
structure IsFiniteMap (mapping : Mapping) : Prop where
  get?_insert : ∀ key other value : Value, key.FloatFree → other.FloatFree →
    (mapping.insert key value).get? other =
      if key.equal other = true then some value else mapping.get? other
  get?_remove : ∀ key other : Value, key.FloatFree → other.FloatFree →
    (mapping.remove key).2.get? other =
      if key.equal other = true then none else mapping.get? other
  removed : ∀ key : Value, (mapping.remove key).1 = mapping.get? key
  contains_iff : ∀ key : Value, mapping.contains key = true ↔ (mapping.get? key).isSome = true
  encard_classes : mapping.classes.encard = mapping.size

/--
A mapping whose keys contain no floating point numbers is a finite map on the
classes of equal keys.  So is one made from pairs: each class keeps its first
key, at the place of that key, with the last of its values.  Collected keywords
have such keys, and a copy is the mapping itself.
-/
theorem mapping_is_finite_map :
    (∀ mapping : Mapping, mapping.Built → mapping.Exact → mapping.IsFiniteMap) ∧
    (∀ pairs : List (Value × Value), (∀ pair ∈ pairs, pair.1.FloatFree) →
      (ofPairs pairs).IsFiniteMap ∧
      (ofPairs pairs).keys = (pairs.map Prod.fst).eraseDupsBy Value.equal ∧
      ∀ key : Value, key.FloatFree → (ofPairs pairs).get? key =
        (pairs.reverse.find? fun pair => pair.1.equal key).map Prod.snd) ∧
    (∀ pool : Binding.Pool, (Binding.collected pool).IsFiniteMap) ∧
    (∀ mapping : Mapping, mapping.Built → ofPairs mapping.entries = mapping) := by
  have laws (mapping : Mapping) (built : mapping.Built) (exact : mapping.Exact) :
      mapping.IsFiniteMap :=
    { get?_insert := fun _ _ _ keyExact otherExact => exact.get?_insert keyExact otherExact
      get?_remove := fun _ _ keyExact otherExact => exact.get?_remove built keyExact otherExact
      removed := remove_fst mapping
      contains_iff := fun key => by rw [contains_eq]
      encard_classes := exact.encard_classes built }
  refine ⟨laws, fun pairs exact => ⟨?_, keys_ofPairs pairs, ?_⟩, fun pool => ?_, ?_⟩
  · exact laws _ (built_ofPairs pairs) (exact_ofPairs exact)
  · exact fun key keyExact => get?_ofPairs exact keyExact
  · exact laws _ (built_ofPairs _) (exact_collected pool)
  · exact fun mapping built => built.copy

/-- Inserted under `true` and a tuple; the tuple was removed by an equal one. -/
def truthKeyed : Mapping :=
  (((∅ : Mapping).insert (.bool true) (.str "old")).insert (.tuple [.int 1]) .none).remove
    (.tuple [.bool true]) |>.2

/-- The integer one and the truth value are the same key. -/
theorem mapping_is_finite_map_truth_key :
    truthKeyed.Built ∧ truthKeyed.Exact ∧ truthKeyed.classes.encard = 1 ∧
      (truthKeyed.insert (.int 1) (.str "new")).get? (.bool true) = some (.str "new") ∧
      (ofPairs [(.bool true, .str "a"), (.none, .str "b"), (.int 1, .str "c")]).keys =
        [.bool true, .none] := by
  have built : truthKeyed.Built := ((Built.empty.insert _ _).insert _ _).remove _
  have exact : truthKeyed.Exact := by decide
  have laws := mapping_is_finite_map.1 truthKeyed built exact
  have inserted := laws.get?_insert (.int 1) (.bool true) (.str "new") rfl rfl
  have made := mapping_is_finite_map.2.1
    [(.bool true, .str "a"), (.none, .str "b"), (.int 1, .str "c")] (by decide)
  refine ⟨built, exact, laws.encard_classes, ?_, ?_⟩
  · rw [inserted, if_pos (by decide)]
  · rw [made.2.1]
    rfl

end Mapping

end ScriptCore
