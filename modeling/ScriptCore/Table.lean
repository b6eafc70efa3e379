/-!
# Finite tables

A table maps each of finitely many keys to one value.  It is kept as a list of
entries in the order in which the keys were first set; setting a known key
keeps its place.  No key occurs twice, so the number of entries is the number
of keys.
-/

namespace ScriptCore

/-- A finite map from keys to values. -/
structure Table (κ α : Type) where
  entries : List (κ × α)
  keys_nodup : (entries.map Prod.fst).Nodup

namespace Table

variable {κ α : Type} [DecidableEq κ]

/-! ## Entry lists -/

/-- The value of the first entry for `key`. -/
def lookup (key : κ) : List (κ × α) → Option α
  | [] => none
  | (other, value) :: rest => if other = key then some value else lookup key rest

/-- Overwrite the first entry for `key`, or add one at the end. -/
def put (key : κ) (value : α) : List (κ × α) → List (κ × α)
  | [] => [(key, value)]
  | (other, old) :: rest =>
      if other = key then (key, value) :: rest else (other, old) :: put key value rest

/-- Remove every entry for `key`. -/
def drop (key : κ) : List (κ × α) → List (κ × α)
  | [] => []
  | (other, value) :: rest =>
      if other = key then drop key rest else (other, value) :: drop key rest

theorem mem_keys_put {key other : κ} {value : α} {entries : List (κ × α)} :
    other ∈ (put key value entries).map Prod.fst ↔
      other = key ∨ other ∈ entries.map Prod.fst := by
  induction entries with
  | nil => simp [put]
  | cons entry rest ih =>
      obtain ⟨head, old⟩ := entry
      by_cases same : head = key
      · subst same
        simp [put]
      · simp only [put, same, if_false, List.map_cons, List.mem_cons, ih]
        constructor
        · rintro (h | h | h) <;> simp [h]
        · rintro (h | h | h) <;> simp [h]

theorem nodup_keys_put {key : κ} {value : α} {entries : List (κ × α)}
    (nodup : (entries.map Prod.fst).Nodup) :
    ((put key value entries).map Prod.fst).Nodup := by
  induction entries with
  | nil => simp [put]
  | cons entry rest ih =>
      obtain ⟨head, old⟩ := entry
      simp only [List.map_cons, List.nodup_cons] at nodup
      by_cases same : head = key
      · subst same
        simpa [put] using nodup
      · simp only [put, same, if_false, List.map_cons, List.nodup_cons]
        refine ⟨?_, ih nodup.2⟩
        rw [mem_keys_put]
        rintro (h | h)
        · exact same h
        · exact nodup.1 h

theorem drop_sublist (key : κ) (entries : List (κ × α)) : (drop key entries).Sublist entries := by
  induction entries with
  | nil => exact .slnil
  | cons entry rest ih =>
      obtain ⟨head, old⟩ := entry
      by_cases same : head = key
      · simpa [drop, same] using ih.cons (head, old)
      · simpa [drop, same] using ih.cons_cons (head, old)

theorem nodup_keys_drop {key : κ} {entries : List (κ × α)}
    (nodup : (entries.map Prod.fst).Nodup) :
    ((drop key entries).map Prod.fst).Nodup :=
  nodup.sublist ((drop_sublist key entries).map Prod.fst)

theorem lookup_put (key other : κ) (value : α) (entries : List (κ × α)) :
    lookup other (put key value entries) =
      if key = other then some value else lookup other entries := by
  induction entries with
  | nil => simp [put, lookup]
  | cons entry rest ih =>
      obtain ⟨head, old⟩ := entry
      by_cases same : head = key
      · subst same
        by_cases eq : head = other <;> simp [put, lookup, eq]
      · by_cases eq : key = other
        · subst eq
          simp [put, lookup, same, ih]
        · simp [put, lookup, same, eq, ih]

theorem lookup_drop (key other : κ) (entries : List (κ × α)) :
    lookup other (drop key entries) =
      if key = other then none else lookup other entries := by
  induction entries with
  | nil => simp [drop, lookup]
  | cons entry rest ih =>
      obtain ⟨head, old⟩ := entry
      by_cases same : head = key
      · subst same
        by_cases eq : head = other
        · subst eq
          simpa [drop] using ih
        · simp [drop, lookup, eq, ih]
      · by_cases eq : key = other
        · subst eq
          simp [drop, lookup, same, ih]
        · simp [drop, lookup, same, eq, ih]

/-- What was put for a key is removed with everything else for it. -/
theorem drop_put (key : κ) (value : α) (entries : List (κ × α)) :
    drop key (put key value entries) = drop key entries := by
  induction entries with
  | nil => simp [put, drop]
  | cons entry rest ih =>
      obtain ⟨head, old⟩ := entry
      by_cases same : head = key
      · simp [put, drop, same]
      · simp [put, drop, same, ih]

theorem lookup_eq_none_iff {key : κ} {entries : List (κ × α)} :
    lookup key entries = none ↔ key ∉ entries.map Prod.fst := by
  induction entries with
  | nil => simp [lookup]
  | cons entry rest ih =>
      obtain ⟨head, old⟩ := entry
      by_cases same : head = key
      · simp [lookup, same]
      · have flipped : key ≠ head := fun h => same h.symm
        simp [lookup, same, flipped, ih]

/-- Where no key occurs twice, every entry is found. -/
theorem lookup_of_mem {key : κ} {value : α} {entries : List (κ × α)}
    (nodup : (entries.map Prod.fst).Nodup) (member : (key, value) ∈ entries) :
    lookup key entries = some value := by
  induction entries with
  | nil => cases member
  | cons entry rest ih =>
      obtain ⟨head, old⟩ := entry
      rw [List.map_cons, List.nodup_cons] at nodup
      rcases List.mem_cons.mp member with same | later
      · cases same
        exact if_pos rfl
      · have different : head ≠ key := fun same =>
          nodup.1 (List.mem_map.mpr ⟨(key, value), later, same.symm⟩)
        rw [lookup, if_neg different, ih nodup.2 later]

/-- What is found is an entry. -/
theorem mem_of_lookup {key : κ} {value : α} {entries : List (κ × α)}
    (found : lookup key entries = some value) : (key, value) ∈ entries := by
  induction entries with
  | nil => cases found
  | cons entry rest ih =>
      obtain ⟨head, first⟩ := entry
      rw [lookup] at found
      split at found
      · next same =>
          cases found
          exact same ▸ List.mem_cons_self
      · exact List.mem_cons_of_mem _ (ih found)

theorem put_of_not_mem {key : κ} {value : α} {entries : List (κ × α)}
    (fresh : key ∉ entries.map Prod.fst) : put key value entries = entries ++ [(key, value)] := by
  induction entries with
  | nil => rfl
  | cons entry rest ih =>
      obtain ⟨head, old⟩ := entry
      rw [List.map_cons, List.mem_cons, not_or] at fresh
      have different : head ≠ key := fun same => fresh.1 same.symm
      rw [put, if_neg different, ih fresh.2, List.cons_append]

/-! ## Tables -/

/-- The table without keys. -/
def empty : Table κ α := ⟨[], by simp⟩

instance : EmptyCollection (Table κ α) := ⟨empty⟩

instance : Inhabited (Table κ α) := ⟨empty⟩

/-- The value of `key`, if it has one. -/
def get? (table : Table κ α) (key : κ) : Option α := lookup key table.entries

/-- Whether `key` has a value. -/
def contains (table : Table κ α) (key : κ) : Bool := (table.get? key).isSome

/-- Give `key` a value, replacing the one it had. -/
def set (table : Table κ α) (key : κ) (value : α) : Table κ α :=
  ⟨put key value table.entries, nodup_keys_put table.keys_nodup⟩

/-- Take the value of `key` away. -/
def erase (table : Table κ α) (key : κ) : Table κ α :=
  ⟨drop key table.entries, nodup_keys_drop table.keys_nodup⟩

/-- Set several keys, one after the other. -/
def setAll (table : Table κ α) (pairs : List (κ × α)) : Table κ α :=
  pairs.foldl (fun current pair => current.set pair.1 pair.2) table

/-- The number of keys that have a value. -/
def size (table : Table κ α) : Nat := table.entries.length

/-- The keys, in the order in which they were first set. -/
def keys (table : Table κ α) : List κ := table.entries.map Prod.fst

theorem get?_set (table : Table κ α) (key other : κ) (value : α) :
    (table.set key value).get? other = if key = other then some value else table.get? other :=
  lookup_put key other value table.entries

@[simp] theorem get?_set_self (table : Table κ α) (key : κ) (value : α) :
    (table.set key value).get? key = some value := by
  simp [get?_set]

theorem get?_set_of_ne (table : Table κ α) {key other : κ} (different : key ≠ other)
    (value : α) : (table.set key value).get? other = table.get? other := by
  simp [get?_set, different]

theorem get?_erase (table : Table κ α) (key other : κ) :
    (table.erase key).get? other = if key = other then none else table.get? other :=
  lookup_drop key other table.entries

theorem erase_set_self (table : Table κ α) (key : κ) (value : α) :
    (table.set key value).erase key = table.erase key := by
  simp only [erase, set, drop_put]

theorem get?_eq_none_iff {table : Table κ α} {key : κ} :
    table.get? key = none ↔ key ∉ table.keys :=
  lookup_eq_none_iff

/-- Setting keys that are new adds their entries at the end. -/
theorem entries_setAll {table : Table κ α} {pairs : List (κ × α)}
    (distinct : ((table.entries ++ pairs).map Prod.fst).Nodup) :
    (table.setAll pairs).entries = table.entries ++ pairs := by
  induction pairs generalizing table with
  | nil => simp [setAll]
  | cons pair rest ih =>
      obtain ⟨key, value⟩ := pair
      have fresh : key ∉ table.entries.map Prod.fst := by
        intro known
        rw [List.map_append, List.nodup_append] at distinct
        exact distinct.2.2 key known key List.mem_cons_self rfl
      have added : (table.set key value).entries = table.entries ++ [(key, value)] :=
        put_of_not_mem fresh
      have step : table.setAll ((key, value) :: rest) = (table.set key value).setAll rest := rfl
      rw [step, ih, added, List.append_assoc, List.singleton_append]
      rw [added, List.append_assoc, List.singleton_append]
      exact distinct

end Table

end ScriptCore
