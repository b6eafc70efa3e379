import ScriptCore.Proofs.Heap.Growth
import ScriptCore.Proofs.Mapping.FiniteMap
import ScriptCore.Proofs.Run.Construction

/-!
# The order of entries

Keys are compared by an equality that need not be reflexive or transitive: a NaN
differs from itself, and one number can equal two that differ.  The entries of a
mapping stay in order all the same.  An insertion changes the value of one entry or
adds one at the end, a removal takes one out, and no key ever equals one before it.
That is all that copying entry by entry needs.
-/

namespace ScriptCore

namespace Mapping

variable {mapping : Mapping} {key stored old : Value} {entries before after : List (Value × Value)}

/-! ## Searching past other keys -/

section OtherKeys

variable (others : ∀ entry ∈ before, entry.1.equal key = false)

include others

theorem put_append (value : Value) (rest : List (Value × Value)) :
    put key value (before ++ rest) = before ++ put key value rest := by
  induction before with
  | nil => rfl
  | cons head tail ih =>
      have different := others head List.mem_cons_self
      have later := ih fun entry member => others entry (List.mem_cons_of_mem _ member)
      rw [List.cons_append, put, if_neg (Bool.eq_false_iff.mp different), later, List.cons_append]

theorem take_append (rest : List (Value × Value)) :
    take key (before ++ rest) = ((take key rest).1, before ++ (take key rest).2) := by
  induction before with
  | nil => rfl
  | cons head tail ih =>
      have different := others head List.mem_cons_self
      have later := ih fun entry member => others entry (List.mem_cons_of_mem _ member)
      rw [List.cons_append, take, if_neg (Bool.eq_false_iff.mp different), later, List.cons_append]

end OtherKeys

theorem contains_eq_false_iff :
    mapping.contains key = false ↔ ∀ entry ∈ mapping.entries, entry.1.equal key = false := by
  rw [contains, List.any_eq_false]
  simp only [Bool.not_eq_true]

/-- The first entry whose key equals `key`, with the entries before it and after it. -/
structure FirstEntry (entries : List (Value × Value)) (key : Value)
    (before : List (Value × Value)) (stored old : Value) (after : List (Value × Value)) : Prop where
  split : entries = before ++ (stored, old) :: after
  equal : stored.equal key = true
  others : ∀ entry ∈ before, entry.1.equal key = false

theorem exists_firstEntry (contained : mapping.contains key = true) :
    ∃ before stored old after, FirstEntry mapping.entries key before stored old after := by
  have found : (mapping.entries.find? fun entry => entry.1.equal key).isSome = true := by
    rw [List.find?_isSome]
    exact List.any_eq_true.mp contained
  obtain ⟨⟨stored, old⟩, first⟩ := Option.isSome_iff_exists.mp found
  obtain ⟨equal, before, after, split, others⟩ := List.find?_eq_some_iff_append.mp first
  refine ⟨before, stored, old, after, split, equal, fun entry member => ?_⟩
  simpa using others entry member

/-- Overwriting reaches the first entry only, and leaves it its key. -/
theorem FirstEntry.put (entry : FirstEntry entries key before stored old after) (value : Value) :
    put key value entries = before ++ (stored, value) :: after := by
  rw [entry.split, put_append entry.others, Mapping.put, if_pos entry.equal]

theorem FirstEntry.take (entry : FirstEntry entries key before stored old after) :
    take key entries = (some old, before ++ after) := by
  rw [entry.split, take_append entry.others, Mapping.take, if_pos entry.equal]

theorem take_of_new (new : ∀ entry ∈ entries, entry.1.equal key = false) :
    take key entries = (none, entries) := by
  have passed := take_append new []
  rw [List.append_nil] at passed
  rw [passed, Mapping.take, List.append_nil]

/-! ## Calling the type of dictionaries -/

/-- With the parents they come with, the built-in types put dictionaries below no exception. -/
theorem isSubtype_exception_of_dict {types : Registry}
    (parents : ∀ entry ∈ TypeId.builtins, types.parentOf entry.1 = entry.2.2) :
    types.isSubtype .dict .exception = false := by
  have dict : types.Parent .dict .object := parents (.dict, "dict", some .object) (by decide)
  have object : types.parentOf .object = none := parents (.object, "object", none) (by decide)
  have walk : types.Chain .dict [.dict, .object] := .step dict (.last object)
  have known : types.contains .dict = true := decide_eq_true dict.lt_size
  rw [Registry.isSubtype, walk.ancestors_eq known]
  decide

/-- A dictionary made from a dictionary is a new one with the entries inserted one by one. -/
theorem run_call_dict {machine : Machine} {source : Value}
    (parents : ∀ entry ∈ TypeId.builtins, machine.world.types.parentOf entry.1 = entry.2.2)
    (held : machine.world.heap.mapping? source = some mapping) (depth : Nat) :
    (Machine.call (depth + 1) (.type .dict) (.ofList [source])).run machine =
      (.value (machine.world.heap.newDict (.ofPairs mapping.entries)).1,
        { machine with world := { machine.world with
            heap := (machine.world.heap.newDict (.ofPairs mapping.entries)).2 } }) := by
  have converts : machine.world.convertTo .dict source =
      .ok (machine.world.allocate (machine.world.heap.newDict (.ofPairs mapping.entries))) := by
    simp only [World.convertTo, held]
    rfl
  exact Run.Constructs.run rfl
    (.converted (isSubtype_exception_of_dict parents) rfl rfl converts)

/-! ## Order -/

/-- What is promised of the entries of a mapping, whatever its keys are. -/
structure KeepsOrder (mapping : Mapping) : Prop where
  /-- No key equals a key before it. -/
  distinct : mapping.keys.Pairwise fun earlier later => later.equal earlier = false
  /-- Overwriting keeps the stored key, its place and all other entries. -/
  overwrite : ∀ key value, mapping.contains key = true →
    ∃ before stored old after, FirstEntry mapping.entries key before stored old after ∧
      (mapping.insert key value).entries = before ++ (stored, value) :: after
  add : ∀ key value, mapping.contains key = false →
    (mapping.insert key value).entries = mapping.entries ++ [(key, value)]
  /-- Removing takes out one entry, and the others stay in their order. -/
  remove : ∀ key, mapping.contains key = true →
    ∃ before stored old after, FirstEntry mapping.entries key before stored old after ∧
      mapping.remove key = (some old, ⟨before ++ after⟩)
  keep : ∀ key, mapping.contains key = false → mapping.remove key = (none, mapping)
  copy : ofPairs mapping.entries = mapping
  /-- Calling the type of dictionaries on a dictionary makes a new one with the same entries. -/
  call : ∀ depth (machine : Machine) source,
    (∀ entry ∈ TypeId.builtins, machine.world.types.parentOf entry.1 = entry.2.2) →
    machine.world.heap.mapping? source = some mapping →
      ∃ id last, (Machine.call (depth + 1) (.type .dict) (.ofList [source])).run machine =
          (.value (.object id .dict), last) ∧
        Heap.IsNew machine.world.heap last.world.heap id ∧
        last.world.heap.payload id = .mapping mapping ∧
        machine.world.heap.Extends last.world.heap

/--
Every mapping that insertions and removals lead to keeps its entries in order, and a copy
has the same entries.
-/
theorem built_keeps_order (built : mapping.Built) : mapping.KeepsOrder where
  distinct := built.distinct.imp fun different => (Value.equal_comm _ _).trans different
  overwrite key value contained := by
    obtain ⟨before, stored, old, after, first⟩ := exists_firstEntry contained
    exact ⟨before, stored, old, after, first, first.put value⟩
  add key value new := put_of_new (contains_eq_false_iff.mp new)
  remove key contained := by
    obtain ⟨before, stored, old, after, first⟩ := exists_firstEntry contained
    refine ⟨before, stored, old, after, first, ?_⟩
    rw [remove, first.take]
  keep key new := by
    rw [remove, take_of_new (contains_eq_false_iff.mp new)]
  copy := built.copy
  call depth machine source parents held := by
    have made := run_call_dict parents held depth
    rw [built.copy] at made
    obtain ⟨id, same, new, contents⟩ :=
      Heap.newObject_spec machine.world.heap .dict (.mapping mapping)
    refine ⟨id, _, made.trans (by rw [Heap.newDict, same]), new, contents, ?_⟩
    exact Heap.newObject_extends machine.world.heap .dict (.mapping mapping)

/-- A NaN twice, and two integers that equal the same floating point number. -/
def nanKeyed : Mapping :=
  ((((∅ : Mapping).insert (.float .nan) (.str "a")).insert (.float .nan) (.str "b")).insert
    (.int Value.roundingStart) (.str "c")).insert (.int (Value.roundingStart + 1)) (.str "d")

/-- That number overwrites the first of the integers; a NaN finds nothing and takes nothing out. -/
theorem built_keeps_order_nan :
    nanKeyed.Built ∧
      nanKeyed.keys = [.float .nan, .float .nan, .int Value.roundingStart,
        .int (Value.roundingStart + 1)] ∧
      ofPairs nanKeyed.entries = nanKeyed ∧
      nanKeyed.remove (.float .nan) = (none, nanKeyed) ∧
      ∃ before stored old after,
        FirstEntry nanKeyed.entries (.float 9007199254740992.0) before stored old after ∧
          (nanKeyed.insert (.float 9007199254740992.0) .none).entries =
            before ++ (stored, .none) :: after := by
  have built : nanKeyed.Built := (((Built.empty.insert _ _).insert _ _).insert _ _).insert _ _
  have order := built_keeps_order built
  exact ⟨built, rfl, order.copy, order.keep _ (by decide), order.overwrite _ _ (by decide)⟩

end Mapping

end ScriptCore
