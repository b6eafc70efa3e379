import ScriptCore.Proofs.Number.Words
import ScriptCore.Proofs.Run.Natives

/-!
# Indexing

Lists and tuples are indexed alike.  An index from the least word to the greatest either
means one place, from the front or from the back, or is refused as it was given.
-/

namespace ScriptCore

/-! ## Places -/

section Places

variable {index : Int64} {length place : Nat}

/-- A negative index and the word for a length have a sum in words. -/
theorem inRange_wrapped (negative : index < 0) :
    Word.InRange (index.toInt + (Word.ofNat length).toInt) := by
  have below : index.toInt < 0 := Int64.lt_iff_toInt_lt.mp negative
  have least := (Word.inRange_toInt index).1
  have clamped := Word.toInt_ofNat length
  rw [Word.least] at least
  rw [Word.greatest] at clamped
  rw [Word.inRange_iff]
  omega

/-- Counting from the back is exact, but for the word that stands for the length. -/
theorem toInt_wrapIndex (index : Int64) (length : Nat) :
    (wrapIndex index length).toInt =
      if index.toInt < 0 then index.toInt + min (length : Int) Word.greatest
      else index.toInt := by
  have sign : index < 0 ↔ index.toInt < 0 := Int64.lt_iff_toInt_lt
  unfold wrapIndex
  by_cases negative : index < 0
  · rw [if_pos negative, if_pos (sign.mp negative), Word.toInt_add (inRange_wrapped negative),
      Word.toInt_ofNat]
  · rw [if_neg negative, if_neg (negative ∘ sign.mpr)]

theorem indexIn_eq_some_iff {place : Fin length} :
    indexIn index length = some place ↔ (wrapIndex index length).toInt = place.val := by
  have inside := place.isLt
  simp only [indexIn]
  split
  · rw [Option.some_inj, Fin.ext_iff]
    change (wrapIndex index length).toInt.toNat = place.val ↔ _
    omega
  · refine ⟨nofun, fun same => ?_⟩
    omega

/-- An index that is not negative counts from the front. -/
theorem indexIn_front (inside : place < length) (front : index.toInt = place) :
    indexIn index length = some ⟨place, inside⟩ := by
  rw [indexIn_eq_some_iff, toInt_wrapIndex, if_neg (by omega)]
  exact front

/-- A negative index counts from the back. -/
theorem indexIn_back (counted : (length : Int) ≤ Word.greatest) (inside : place < length)
    (back : index.toInt = place - length) : indexIn index length = some ⟨place, inside⟩ := by
  rw [indexIn_eq_some_iff, toInt_wrapIndex, if_pos (by omega), Int.min_eq_left counted]
  change index.toInt + length = place
  omega

theorem indexIn_outside (outside : index.toInt < -length ∨ length ≤ index.toInt) :
    indexIn index length = none := by
  cases found : indexIn index length with
  | none => rfl
  | some place =>
      rw [indexIn_eq_some_iff, toInt_wrapIndex] at found
      have inside := place.isLt
      omega

end Places

/-! ## Items -/

namespace World

/-- The value is a list with these items. -/
structure IsList (world : World) (value : Value) (items : List Value) : Prop where
  type : world.types.isInstance value .list = true
  items : world.heap.list? value = some items

variable {world : World} {value : Value} {items : List Value}

theorem IsList.expectList (list : world.IsList value items) :
    ∃ id, world.expectList value = .ok (id, items) := by
  have kept := list.items
  unfold Heap.list? at kept
  split at kept
  · rename_i id type
    refine ⟨id, ?_⟩
    rw [World.expectList, expectType, if_pos list.type]
    simp only [list.items]
  · cases kept

/-- The item that a value means as an index. -/
def itemAt (world : World) (items : List Value) (index : Value) : Except Error Value :=
  (world.placeOf index items.length).map items.get

/-- A list finds every item again that an index means. -/
theorem run_list_getItem (list : world.IsList value items) (index : Value) :
    ListMethod.run world .getItem [value, index] = (world.itemAt items index).map (·, world) := by
  obtain ⟨id, expected⟩ := list.expectList
  simp only [ListMethod.run, expected, itemAt]
  change (world.placeOf index items.length).bind _ = _
  cases world.placeOf index items.length with
  | error refused => rfl
  | ok place =>
      have found : items[place.val]? = some (items.get place) :=
        List.getElem?_eq_getElem place.isLt
      simp only [Except.bind, found]
      rfl

theorem run_tuple_getItem (world : World) (items : List Value) (index : Value) :
    TupleMethod.run world .getItem [.tuple items, index] = world.itemAt items index := by
  simp only [TupleMethod.run, expectTuple, itemAt]
  change (world.placeOf index items.length).bind _ = _
  cases world.placeOf index items.length with
  | error refused => rfl
  | ok place => rfl

theorem itemAt_of_found {index : Value} {place : Fin items.length}
    (found : world.placeOf index items.length = .ok place) :
    world.itemAt items index = .ok (items.get place) := by
  simp only [itemAt, found, Except.map]

theorem itemAt_of_refused {index : Value} {error : Error}
    (refused : world.placeOf index items.length = .error error) :
    world.itemAt items index = .error error := by
  simp only [itemAt, refused, Except.map]

theorem placeOf_of_place {index : Int64} {length : Nat} {place : Fin length}
    (found : indexIn index length = some place) :
    world.placeOf (.int index) length = .ok place := by
  simp only [placeOf, found]

theorem itemAt_outside {index : Int64}
    (outside : index.toInt < -items.length ∨ items.length ≤ index.toInt) :
    world.itemAt items (.int index) = .error (.ofCause (.indexOutOfRange index items.length)) := by
  simp only [itemAt, placeOf, indexIn_outside outside, Except.map]

theorem itemAt_of_no_index {index : Value} (noIndex : ∀ n, index ≠ .int n) :
    world.itemAt items index = .error (world.mismatch "int" index) := by
  unfold itemAt placeOf
  split
  · exact absurd rfl (noIndex _)
  · rfl

end World

/-! ## Calls -/

namespace Machine

variable {machine : Machine} {items : List Value} {listNative tupleNative : Native} {list : Value}

/-- Answer with an item, or refuse, and change nothing. -/
def answerItem (items : List Value) (index : Value) : Computation Machine Value :=
  update fun world => (world.itemAt items index).map (·, world)

/-- What comes of asking for one item after another by an index. -/
structure Indexes (machine : Machine) (items : List Value)
    (ask : Value → Computation Machine Value) : Prop where
  front : ∀ {index : Int64} {place : Nat} (inside : place < items.length),
    index.toInt = place → (ask (.int index)).run machine = (.value items[place], machine)
  /-- No sequence in memory has more items than the greatest word says. -/
  back : ∀ {index : Int64} {place : Nat} (inside : place < items.length),
    (items.length : Int) ≤ Word.greatest → index.toInt = place - items.length →
      (ask (.int index)).run machine = (.value items[place], machine)
  outside : ∀ {index : Int64}, index.toInt < -items.length ∨ items.length ≤ index.toInt →
    (ask (.int index)).run machine =
      (.raised (.ofCause (.indexOutOfRange index items.length)), machine)
  noIndex : ∀ {index : Value}, (∀ n, index ≠ .int n) →
    (ask index).run machine = (.raised (machine.world.mismatch "int" index), machine)
  /-- Every place that is found holds an item. -/
  found : ∀ {index : Value} {place : Fin items.length},
    machine.world.placeOf index items.length = .ok place →
      (ask index).run machine = (.value (items.get place), machine)
  /-- Nothing else fails than the search for the place. -/
  refused : ∀ {index : Value} {error : Error},
    (ask index).run machine = (.raised error, machine) →
      machine.world.placeOf index items.length = .error error

section Asking

variable {ask : Value → Computation Machine Value}
  (agree : ∀ index, (ask index).Agree (answerItem items index) machine)

include agree

theorem run_of_itemAt_ok {index item : Value}
    (found : machine.world.itemAt items index = .ok item) :
    (ask index).run machine = (.value item, machine) := by
  rw [(agree index).1]
  simp only [answerItem, update, Computation.update, found, Except.map]

theorem run_of_itemAt_error {index : Value} {error : Error}
    (refused : machine.world.itemAt items index = .error error) :
    (ask index).run machine = (.raised error, machine) := by
  rw [(agree index).1]
  simp only [answerItem, update, Computation.update, refused, Except.map]

theorem indexes_of_agree : machine.Indexes items ask where
  front inside front := run_of_itemAt_ok agree
    (World.itemAt_of_found (World.placeOf_of_place (indexIn_front inside front)))
  back inside counted back := run_of_itemAt_ok agree
    (World.itemAt_of_found (World.placeOf_of_place (indexIn_back counted inside back)))
  outside outside := run_of_itemAt_error agree (World.itemAt_outside outside)
  noIndex noIndex := run_of_itemAt_error agree (World.itemAt_of_no_index noIndex)
  found found := run_of_itemAt_ok agree (World.itemAt_of_found found)
  refused {index error} raised := by
    cases placed : machine.world.placeOf index items.length with
    | ok place =>
        rw [run_of_itemAt_ok agree (World.itemAt_of_found placed)] at raised
        cases raised
    | error refused =>
        rw [run_of_itemAt_error agree (World.itemAt_of_refused placed)] at raised
        cases raised
        rfl

end Asking

theorem getItem_list (installed : machine.world.Installed (.list .getItem) (some 2) listNative)
    (kept : machine.world.IsList list items) (depth : Nat) (index : Value) :
    (call (depth + 1) (.native listNative) (.ofList [list, index])).Agree
      (answerItem items index) machine :=
  (call_simple installed (by simp) trivial depth).trans
    (agree_update (World.run_list_getItem kept index))

theorem getItem_tuple (installed : machine.world.Installed (.tuple .getItem) (some 2) tupleNative)
    (items : List Value) (depth : Nat) (index : Value) :
    (call (depth + 1) (.native tupleNative) (.ofList [.tuple items, index])).Agree
      (answerItem items index) machine :=
  (call_simple installed (by simp) trivial depth).trans
    (agree_update (congrArg (·.map (·, machine.world))
      (World.run_tuple_getItem machine.world items index)))

end Machine

variable {machine : Machine} {items : List Value} {listNative tupleNative : Native} {list : Value}

/--
Asked for an item, a list and a tuple give the same answer to every index: the item at
that place from the front or, for a negative index, from the back, and otherwise a refusal
that tells the index as it was given.  What is no integer is a mismatch.  A negative index
and the length never overflow when they are added.
-/
theorem indexing_is_exact
    (lists : machine.world.Installed (.list .getItem) (some 2) listNative)
    (tuples : machine.world.Installed (.tuple .getItem) (some 2) tupleNative)
    (kept : machine.world.IsList list items) (depth : Nat) :
    machine.Indexes items (fun index =>
        Machine.call (depth + 1) (.native listNative) (.ofList [list, index])) ∧
      machine.Indexes items (fun index =>
        Machine.call (depth + 1) (.native tupleNative) (.ofList [.tuple items, index])) ∧
      (∀ index : Value,
        (Machine.call (depth + 1) (.native listNative) (.ofList [list, index])).Agree
          (Machine.call (depth + 1) (.native tupleNative) (.ofList [.tuple items, index]))
          machine) ∧
      ∀ index : Int64, index < 0 →
        Word.InRange (index.toInt + (Word.ofNat items.length).toInt) := by
  have asksList := Machine.getItem_list lists kept depth
  have asksTuple := Machine.getItem_tuple tuples items depth
  refine ⟨Machine.indexes_of_agree asksList, Machine.indexes_of_agree asksTuple, ?_, ?_⟩
  · exact fun index => (asksList index).trans (asksTuple index).symm
  · exact fun index => inRange_wrapped

/-- A fresh machine in which one list was made. -/
def Machine.withList (items : List Value) : Machine :=
  { Machine.fresh {} with world := (World.fresh.allocate (World.fresh.heap.newList items)).2 }

/-- The functions that index lists and tuples in a fresh machine. -/
def listItem : Native := ⟨"__getitem__", some 2, none, ⟨16⟩⟩

def tupleItem : Native := ⟨"__getitem__", some 2, none, ⟨18⟩⟩

/-- The last item that counts from the back, the index furthest from the back, and no index. -/
theorem indexing_is_exact_fresh :
    World.fresh.types.resolve .list "__getitem__" = some (.native listItem) ∧
      World.fresh.types.resolve .tuple "__getitem__" = some (.native tupleItem) ∧
      (Machine.call 1 (.native listItem) (.ofList [.object ⟨0⟩ .list, .int (-2)])).run
        (.withList [.str "a", .none]) = (.value (.str "a"), .withList [.str "a", .none]) ∧
      (Machine.call 1 (.native tupleItem)
          (.ofList [.tuple [.str "a", .none], .int Int64.minValue])).run
        (.withList [.str "a", .none]) =
          (.raised (.ofCause (.indexOutOfRange Int64.minValue 2)), .withList [.str "a", .none]) ∧
      (Machine.call 1 (.native listItem) (.ofList [.object ⟨0⟩ .list, .bool true])).run
        (.withList [.str "a", .none]) =
          (.raised (.ofCause (.typeMismatch "int" "bool")), .withList [.str "a", .none]) := by
  have kept : (Machine.withList [.str "a", .none]).world.IsList (.object ⟨0⟩ .list)
      [.str "a", .none] := ⟨rfl, rfl⟩
  have lists : (Machine.withList [.str "a", .none]).world.Installed (.list .getItem) (some 2)
      listItem := ⟨rfl, rfl⟩
  have tuples : (Machine.withList [.str "a", .none]).world.Installed (.tuple .getItem) (some 2)
      tupleItem := ⟨rfl, rfl⟩
  obtain ⟨list, tuple, _⟩ := indexing_is_exact lists tuples kept 0
  refine ⟨rfl, rfl, ?_, ?_, ?_⟩
  · exact list.back (by decide : 0 < 2) (by decide) (by decide)
  · exact tuple.outside (by decide)
  · exact list.noIndex nofun

end ScriptCore
