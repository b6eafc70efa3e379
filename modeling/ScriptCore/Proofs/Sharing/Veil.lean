import ScriptCore.Proofs.Sharing.Identities

/-!
# Veiled heaps

A veil takes away what a heap records about concealed identities.  Whoever has only
identities in view reads from a closed heap what it reads from the veiled one, the text
of values included, and what it writes can as well be written under the veil.
-/

namespace ScriptCore

/-! ## Tables with a part taken away -/

namespace Table

variable {κ α : Type} [DecidableEq κ]

/-- The table with each value changed according to its key. -/
def mapValues (change : κ → α → α) (table : Table κ α) : Table κ α :=
  ⟨table.entries.map fun entry => (entry.1, change entry.1 entry.2), by
    rw [List.map_map]
    exact table.keys_nodup⟩

/-- The entries of the table whose keys pass the test. -/
def restrict (keep : κ → Bool) (table : Table κ α) : Table κ α :=
  ⟨table.entries.filter fun entry => keep entry.1,
    table.keys_nodup.sublist (List.filter_sublist.map Prod.fst)⟩

variable {table : Table κ α} {change : κ → α → α} {keep : κ → Bool} {key : κ} {value : α}

omit [DecidableEq κ] in
theorem size_mapValues : (table.mapValues change).size = table.size := List.length_map _

theorem get?_mapValues (key : κ) :
    (table.mapValues change).get? key = (table.get? key).map (change key) := by
  obtain ⟨entries, nodup⟩ := table
  simp only [get?, mapValues]
  clear nodup
  induction entries with
  | nil => rfl
  | cons entry rest ih =>
      obtain ⟨other, value⟩ := entry
      rw [List.map_cons, lookup, lookup]
      split
      · next same => rw [same, Option.map_some]
      · exact ih

theorem mapValues_set :
    (table.set key value).mapValues change =
      (table.mapValues change).set key (change key value) := by
  obtain ⟨entries, nodup⟩ := table
  simp only [set, mapValues, mk.injEq]
  clear nodup
  induction entries with
  | nil => rfl
  | cons entry rest ih =>
      obtain ⟨other, old⟩ := entry
      rw [put, List.map_cons, put]
      split
      · rfl
      · rw [List.map_cons, ih]

theorem get?_restrict (kept : keep key = true) :
    (table.restrict keep).get? key = table.get? key := by
  obtain ⟨entries, nodup⟩ := table
  simp only [get?, restrict]
  clear nodup
  induction entries with
  | nil => rfl
  | cons entry rest ih =>
      obtain ⟨other, value⟩ := entry
      rw [List.filter_cons, lookup]
      by_cases same : other = key
      · rw [if_pos same, if_pos (same ▸ kept), lookup, if_pos same]
      · rw [if_neg same, ← ih]
        split
        · rw [lookup, if_neg same]
        · rfl

theorem restrict_set (kept : keep key = true) :
    (table.set key value).restrict keep = (table.restrict keep).set key value := by
  obtain ⟨entries, nodup⟩ := table
  simp only [set, restrict, mk.injEq]
  clear nodup
  induction entries with
  | nil => rw [put, List.filter_cons, if_pos kept, List.filter_nil, put]
  | cons entry rest ih =>
      obtain ⟨other, old⟩ := entry
      rw [put, List.filter_cons]
      by_cases same : other = key
      · rw [if_pos same, List.filter_cons, if_pos kept, if_pos (same ▸ kept), put, if_pos same]
      · rw [if_neg same, List.filter_cons, ih]
        split
        · rw [put, if_neg same]
        · rfl

/-- What is set for a key that does not pass is not there. -/
theorem restrict_set_of_not (dropped : keep key ≠ true) :
    (table.set key value).restrict keep = table.restrict keep := by
  obtain ⟨entries, nodup⟩ := table
  simp only [set, restrict, mk.injEq]
  clear nodup
  induction entries with
  | nil => rw [put, List.filter_cons, if_neg dropped]
  | cons entry rest ih =>
      obtain ⟨other, old⟩ := entry
      rw [put, List.filter_cons]
      by_cases same : other = key
      · rw [if_pos same, List.filter_cons, if_neg dropped, if_neg (same ▸ dropped)]
      · rw [if_neg same, List.filter_cons, ih]

end Table

/-! ## Heaps -/

namespace Heap

/-- What is recorded about identities that are not concealed; the others might be plain objects. -/
def veil (concealed : Identity → Bool) (heap : Heap) : Heap where
  next := heap.next
  payloads := heap.payloads.mapValues fun id payload => if concealed id then .plain else payload
  attributes := heap.attributes.restrict fun id => !concealed id
  functions := heap.functions

variable {concealed : Identity → Bool} {heap : Heap} {id : Identity} {value : Value}

section Visible

variable (visible : concealed id = false)

include visible

theorem payload_veil : (heap.veil concealed).payload id = heap.payload id := by
  simp only [payload, veil, Table.get?_mapValues, visible, Bool.false_eq_true, if_false,
    Option.map_id']

theorem attributesOf_veil :
    (heap.veil concealed).attributesOf id = heap.attributesOf id := by
  have kept : (fun id => !concealed id) id = true := congrArg (!·) visible
  exact congrArg (fun found : Option Attributes => found.getD ∅) (Table.get?_restrict kept)

theorem veil_setPayload (payload : Payload) :
    (heap.setPayload id payload).veil concealed = (heap.veil concealed).setPayload id payload := by
  simp only [veil, setPayload, Table.mapValues_set, visible, Bool.false_eq_true, if_false]

theorem veil_setAttributes (attributes : Attributes) :
    (heap.setAttributes id attributes).veil concealed =
      (heap.veil concealed).setAttributes id attributes := by
  have kept : (fun id => !concealed id) id = true := congrArg (!·) visible
  have written : (heap.attributes.set id attributes).restrict (fun id => !concealed id) =
      (heap.attributes.restrict fun id => !concealed id).set id attributes :=
    Table.restrict_set kept
  simp only [veil, setAttributes, written]

end Visible

theorem depthBound_veil :
    Rendering.depthBound (heap.veil concealed) = Rendering.depthBound heap :=
  congrArg (· + 1) Table.size_mapValues

/-! ## New values -/

theorem veil_newObject (closed : heap.Closed concealed) (type : TypeId) (payload : Payload) :
    (heap.veil concealed).newObject type payload =
      ((heap.newObject type payload).1, (heap.newObject type payload).2.veil concealed) := by
  have written : (heap.fresh.2.setPayload ⟨heap.next⟩ payload).veil concealed =
      (heap.fresh.2.veil concealed).setPayload ⟨heap.next⟩ payload :=
    veil_setPayload closed.next_visible payload
  exact Prod.ext rfl written.symm

/-! ## Reading -/

section Reading

variable (held : value.InView concealed heap)

include held

theorem list?_veil : (heap.veil concealed).list? value = heap.list? value := by
  cases value with
  | object id type => simp only [list?, payload_veil (inView_object.mp held).2]
  | _ => rfl

theorem mapping?_veil : (heap.veil concealed).mapping? value = heap.mapping? value := by
  cases value with
  | object id type => simp only [mapping?, payload_veil (inView_object.mp held).2]
  | _ => rfl

theorem length?_veil : (heap.veil concealed).length? value = heap.length? value := by
  cases value with
  | object id type => simp only [length?, payload_veil (inView_object.mp held).2]
  | _ => rfl

theorem sequence?_veil : (heap.veil concealed).sequence? value = heap.sequence? value := by
  cases value with
  | tuple items => rfl
  | _ => exact list?_veil held

theorem isTruthy_veil : (heap.veil concealed).isTruthy value = heap.isTruthy value := by
  cases value with
  | object id type => simp only [isTruthy, length?_veil held]
  | _ => rfl

end Reading

end Heap

/-! ## The text of values -/

namespace Rendering

variable {names : TypeNames} {sink : Sink} {concealed : Identity → Bool} {heap : Heap}

/-- Writing a value comes only to the objects that it mentions. -/
theorem value_congr {enter other : ObjectWriter} (v : Value)
    (same : ∀ id type, v.Mentions id → enter id type = other id type) :
    value names sink enter v = value names sink other v := by
  induction v with
  | tuple items ih =>
      have all : values names sink enter items = values names sink other items := by
        induction items with
        | nil => rfl
        | cons item rest further =>
            have first := ih item List.mem_cons_self fun id type inside =>
              same id type (.item List.mem_cons_self inside)
            have later := further (fun member listed => ih member (List.mem_cons_of_mem _ listed))
              fun id type inside => by
                cases inside with
                | item member inside =>
                    exact same id type (.item (List.mem_cons_of_mem _ member) inside)
            rw [values, values, first, later]
      rw [value, value, all]
  | object id type => exact same id type (.object id type)
  | _ => rfl

theorem object_veil (closed : heap.Closed concealed) (depth : Nat) {id : Identity}
    (type : TypeId) (visible : concealed id = false) :
    object names (heap.veil concealed) sink depth id type =
      object names heap sink depth id type := by
  induction depth generalizing id type with
  | zero => rfl
  | succ depth ih =>
      have contents := closed.payload id visible
      -- what the object contains mentions only identities in view, so it is written alike
      have written (v : Value) (seen : v.InView concealed heap) :
          value names sink (object names (heap.veil concealed) sink depth) v =
            value names sink (object names heap sink depth) v :=
        value_congr v fun id type mentioned => ih type (seen id mentioned).2
      rw [object, object, Heap.payload_veil visible]
      cases held : heap.payload id with
      | plain => rfl
      | list items =>
          rw [held, Payload.inView_list] at contents
          simp only [List.map_congr_left fun item member => written item (contents item member)]
      | mapping mapping =>
          rw [held, Payload.inView_mapping] at contents
          have entries : mapping.entries.map (entry sink
              (value names sink (object names (heap.veil concealed) sink depth))) =
                mapping.entries.map (entry sink
                  (value names sink (object names heap sink depth))) :=
            List.map_congr_left fun pair member => by
              rw [entry, entry, written pair.1 (contents pair member).1,
                written pair.2 (contents pair member).2]
          simp only [entries]

end Rendering

section Texts

variable {names : TypeNames} {concealed : Identity → Bool} {heap : Heap} {value : Value}

theorem Value.repr_veil (closed : heap.Closed concealed) (held : value.InView concealed heap) :
    value.repr names (heap.veil concealed) = value.repr names heap := by
  have written : Rendering.value names .unlimited (Rendering.object names (heap.veil concealed)
      .unlimited (Rendering.depthBound heap)) value =
        Rendering.value names .unlimited (Rendering.object names heap .unlimited
          (Rendering.depthBound heap)) value :=
    Rendering.value_congr value fun id type mentioned =>
      Rendering.object_veil closed (Rendering.depthBound heap) type (held id mentioned).2
  rw [repr, repr, Rendering.write, Rendering.write, Rendering.render, Rendering.render,
    Heap.depthBound_veil, written]

theorem Value.display_veil (closed : heap.Closed concealed) (held : value.InView concealed heap) :
    value.display names (heap.veil concealed) = value.display names heap := by
  cases value with
  | str text => rfl
  | _ => exact repr_veil closed held

theorem Error.keyNotFound_veil (closed : heap.Closed concealed)
    (held : value.InView concealed heap) :
    Error.keyNotFound names (heap.veil concealed) value = .keyNotFound names heap value := by
  rw [keyNotFound, keyNotFound, Value.repr_veil closed held]

theorem Error.assertionFailed_veil (closed : heap.Closed concealed) {message : Option Value}
    (held : ∀ value ∈ message, value.InView concealed heap) :
    Error.assertionFailed names (heap.veil concealed) message =
      .assertionFailed names heap message := by
  have shown : message.map (·.display names (heap.veil concealed)) =
      message.map (·.display names heap) :=
    Option.map_congr fun value member => Value.display_veil closed (held value member)
  rw [assertionFailed, assertionFailed, shown]

theorem Error.raised_veil (closed : heap.Closed concealed) (type : TypeId)
    (held : value.InView concealed heap) :
    Error.raised names (heap.veil concealed) type value = .raised names heap type value := by
  cases value with
  | none => rfl
  | _ => simp only [raised, Value.display_veil closed held]

end Texts

end ScriptCore
