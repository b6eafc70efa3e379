import ScriptCore.Value

/-!
# Mappings

A mapping holds entries in insertion order and finds them by value equality.
Overwriting keeps the key that was inserted first and its place.
-/

namespace ScriptCore

/-- The items of a dictionary, in insertion order. -/
structure Mapping where
  entries : List (Value × Value)

namespace Mapping

/-! ## Entry lists -/

/-- The value of the first entry whose key equals `key`. -/
def find (key : Value) : List (Value × Value) → Option Value
  | [] => none
  | (other, value) :: rest => if other.equal key then some value else find key rest

/-- Overwrite the first entry whose key equals `key`, or add one at the end. -/
def put (key value : Value) : List (Value × Value) → List (Value × Value)
  | [] => [(key, value)]
  | (other, old) :: rest =>
      if other.equal key then (other, value) :: rest else (other, old) :: put key value rest

/-- Take out the first entry whose key equals `key`: its value, and the entries that are left. -/
def take (key : Value) : List (Value × Value) → Option Value × List (Value × Value)
  | [] => (none, [])
  | (other, value) :: rest =>
      if other.equal key then (some value, rest)
      else
        let (found, left) := take key rest
        (found, (other, value) :: left)

/-! ## Mappings -/

/-- The mapping without entries. -/
def empty : Mapping := ⟨[]⟩

instance : EmptyCollection Mapping := ⟨empty⟩

/-- The value stored under a key equal to `key`. -/
def get? (mapping : Mapping) (key : Value) : Option Value := find key mapping.entries

def contains (mapping : Mapping) (key : Value) : Bool :=
  mapping.entries.any fun entry => entry.1.equal key

def insert (mapping : Mapping) (key value : Value) : Mapping := ⟨put key value mapping.entries⟩

/-- Take out a key equal to `key`: the value it had, and the mapping that is left. -/
def remove (mapping : Mapping) (key : Value) : Option Value × Mapping :=
  let (found, left) := take key mapping.entries
  (found, ⟨left⟩)

def size (mapping : Mapping) : Nat := mapping.entries.length

def isEmpty (mapping : Mapping) : Bool := mapping.entries.isEmpty

/-- Insert the pairs one after the other; later values replace earlier ones. -/
def ofPairs (pairs : List (Value × Value)) : Mapping :=
  pairs.foldl (fun mapping pair => mapping.insert pair.1 pair.2) ∅

/-! ## New keys -/

theorem put_of_new {key value : Value} {entries : List (Value × Value)}
    (new : ∀ entry ∈ entries, entry.1.equal key = false) :
    put key value entries = entries ++ [(key, value)] := by
  induction entries with
  | nil => rfl
  | cons entry rest ih =>
      obtain ⟨head, old⟩ := entry
      have different := new (head, old) List.mem_cons_self
      rw [put, if_neg (by simp [different]),
        ih fun other member => new other (List.mem_cons_of_mem _ member), List.cons_append]

/-- Inserting keys that equal no key before them adds their entries at the end. -/
theorem entries_foldl_insert {mapping : Mapping} {pairs : List (Value × Value)}
    (distinct : (mapping.entries ++ pairs).Pairwise fun a b => a.1.equal b.1 = false) :
    (pairs.foldl (fun mapping pair => mapping.insert pair.1 pair.2) mapping).entries =
      mapping.entries ++ pairs := by
  induction pairs generalizing mapping with
  | nil => simp
  | cons pair rest ih =>
      have new : ∀ entry ∈ mapping.entries, entry.1.equal pair.1 = false := fun entry member =>
        (List.pairwise_append.mp distinct).2.2 entry member pair List.mem_cons_self
      have added : (mapping.insert pair.1 pair.2).entries = mapping.entries ++ [pair] :=
        put_of_new new
      rw [List.foldl_cons, ih, added, List.append_assoc, List.singleton_append]
      rw [added, List.append_assoc, List.singleton_append]
      exact distinct

theorem entries_ofPairs {pairs : List (Value × Value)}
    (distinct : pairs.Pairwise fun a b => a.1.equal b.1 = false) :
    (ofPairs pairs).entries = pairs :=
  @entries_foldl_insert ∅ pairs distinct

end Mapping

end ScriptCore
