import ScriptCore.Machine
import ScriptCore.Proofs.Heap.Growth

/-!
# Worlds that nobody can tell apart

What has failed may have made objects on the way.  Nobody has them: whatever somebody
holds, nothing else can be got at than before, and all of it is as before.
-/

namespace ScriptCore

namespace World

/-- Nothing is different but that new objects may have been made. -/
structure Untouched (before after : World) : Prop where
  heap : before.heap.Extends after.heap
  types : after.types = before.types
  globals : after.globals = before.globals
  builtins : after.builtins = before.builtins
  bodies : after.bodies = before.bodies

namespace Untouched

theorem refl (world : World) : world.Untouched world :=
  ⟨.refl _, rfl, rfl, rfl, rfl⟩

theorem trans {first middle last : World} (left : first.Untouched middle)
    (right : middle.Untouched last) : first.Untouched last :=
  ⟨left.heap.trans right.heap, right.types.trans left.types, right.globals.trans left.globals,
    right.builtins.trans left.builtins, right.bodies.trans left.bodies⟩

end Untouched

theorem untouched_of_extends {world : World} {heap : Heap} (grown : world.heap.Extends heap) :
    world.Untouched { world with heap } :=
  ⟨grown, rfl, rfl, rfl, rfl⟩

end World

/-! ## Taking away what is not there -/

theorem Table.erase_of_get?_eq_none {κ α : Type} [DecidableEq κ] {table : Table κ α} {key : κ}
    (absent : table.get? key = none) : table.erase key = table := by
  have dropped (entries : List (κ × α)) (absent : lookup key entries = none) :
      drop key entries = entries := by
    induction entries with
    | nil => rfl
    | cons entry rest ih =>
        obtain ⟨other, value⟩ := entry
        rw [lookup] at absent
        split at absent
        · cases absent
        · next different => rw [drop, if_neg different, ih absent]
  obtain ⟨entries, nodup⟩ := table
  simp only [erase, dropped entries absent]

theorem Registry.eraseCapability_of_absent {registry : Registry} {type : TypeId} {name : Name}
    (absent : registry.ownCapability type name = none) :
    registry.eraseCapability type name = registry := by
  obtain ⟨types⟩ := registry
  refine congrArg Registry.mk (List.ext_getElem? fun index => ?_)
  rw [List.getElem?_modify]
  cases found : types[index]? with
  | none => rfl
  | some info =>
      by_cases here : type.index = index
      · rw [ownCapability, get?, here, found] at absent
        simp only [here, if_true, Option.map_eq_map, Option.map_some, Option.some_inj]
        rw [Table.erase_of_get?_eq_none absent]
      · simp only [here, if_false, id_map']

theorem Heap.eraseAttribute_extends (heap : Heap) {id : Identity} {name : Name}
    (absent : (heap.attributesOf id).get? name = none) :
    heap.Extends (heap.eraseAttribute id name) := by
  rw [eraseAttribute, Table.erase_of_get?_eq_none absent]
  refine { Extends.refl heap with attributes := fun other _ => ?_ }
  simp only [setAttributes, attributesOf, Table.get?_set]
  split
  · next same => rw [same, Option.getD_some]
  · rfl

/-! ## What can be got at -/

/-- The identity by which a value is known. -/
def Value.identity? : Value → Option Identity
  | .object id _ | .function id | .error id .. => some id
  | _ => .none

/-- The values that an object contains. -/
def Payload.values : Payload → List Value
  | .plain => []
  | .mapping held => held.entries.flatMap fun (key, value) => [key, value]
  | .list items => items

namespace World

/-- The values that can be got at in a world by whoever holds some values. -/
inductive Reachable (world : World) (held : Value → Prop) : Value → Prop where
  | held {value : Value} (has : held value) : Reachable world held value
  | global {name : Name} {value : Value} (bound : world.globals.get? name = some value) :
      Reachable world held value
  | builtin {name : Name} {value : Value} (bound : world.builtins.get? name = some value) :
      Reachable world held value
  | capability {type : TypeId} {name : Name} {value : Value}
      (defined : world.types.ownCapability type name = some value) : Reachable world held value
  | item {items : List Value} {value : Value} (whole : Reachable world held (.tuple items))
      (member : value ∈ items) : Reachable world held value
  | receiver {receiver method : Value}
      (whole : Reachable world held (.boundMethod receiver method)) :
      Reachable world held receiver
  | method {receiver method : Value}
      (whole : Reachable world held (.boundMethod receiver method)) :
      Reachable world held method
  | payload {id : Identity} {type : TypeId} {report : Report} {payload : Value}
      {backtrace : List Name}
      (whole : Reachable world held (.error id type report payload backtrace)) :
      Reachable world held payload
  | content {id : Identity} {type : TypeId} {value : Value}
      (owner : Reachable world held (.object id type))
      (member : value ∈ (world.heap.payload id).values) : Reachable world held value
  | objectAttribute {id : Identity} {type : TypeId} {name : Name} {value : Value}
      (owner : Reachable world held (.object id type))
      (attached : (world.heap.attributesOf id).get? name = some value) :
      Reachable world held value
  | functionAttribute {id : Identity} {name : Name} {value : Value}
      (owner : Reachable world held (.function id))
      (attached : (world.heap.attributesOf id).get? name = some value) :
      Reachable world held value
  | default {id : Identity} {definition : FunctionDef} {parameter : Parameter} {value : Value}
      (owner : Reachable world held (.function id))
      (defined : world.heap.functions.get? id = some definition)
      (member : parameter ∈ definition.signature.parameters)
      (shared : parameter.default = some (.shared value)) : Reachable world held value

/--
As long as only identities that have been handed out can be got at, nothing more can be
got at afterwards: nothing leads to what is new.
-/
theorem Untouched.reachable {before after : World} (untouched : before.Untouched after)
    {held : Value → Prop}
    (handedOut : ∀ value, before.Reachable held value →
      ∀ id ∈ value.identity?, id.index < before.heap.next)
    {value : Value} (reachable : after.Reachable held value) : before.Reachable held value := by
  induction reachable with
  | held has => exact .held has
  | global bound => exact .global (untouched.globals ▸ bound)
  | builtin bound => exact .builtin (untouched.builtins ▸ bound)
  | capability defined => exact .capability (untouched.types ▸ defined)
  | item _ member ih => exact .item ih member
  | receiver _ ih => exact .receiver ih
  | method _ ih => exact .method ih
  | payload _ ih => exact .payload ih
  | content _ member ih =>
      rw [untouched.heap.payload _ (handedOut _ ih _ rfl)] at member
      exact .content ih member
  | objectAttribute _ attached ih =>
      rw [untouched.heap.attributes _ (handedOut _ ih _ rfl)] at attached
      exact .objectAttribute ih attached
  | functionAttribute _ attached ih =>
      rw [untouched.heap.attributes _ (handedOut _ ih _ rfl)] at attached
      exact .functionAttribute ih attached
  | default _ defined member shared ih =>
      rw [untouched.heap.functions _ (handedOut _ ih _ rfl)] at defined
      exact .default ih defined member shared

end World

end ScriptCore
