import ScriptCore.Proofs.Sharing.Hosts

/-!
# Objects out of reach

Whoever has some values and a machine reaches what they mention, what the names of the
machine mention, and from there whatever the heap records.  A call never comes to an
object that is out of the reach of its arguments: if others change its contents or its
attributes, the call does the same and gives the same.
-/

namespace ScriptCore

/-! ## Reach -/

/-- The heap records that the value belongs to what has this identity. -/
inductive Heap.Records (heap : Heap) (id : Identity) : Value → Prop where
  | content {value : Value} (member : value ∈ (heap.payload id).values) : Records heap id value
  | attached {name : Name} {value : Value}
      (named : (heap.attributesOf id).get? name = some value) : Records heap id value
  | default {function : FunctionDef} {p : Parameter} {value : Value}
      (defined : heap.functions.get? id = some function)
      (member : p ∈ function.signature.parameters) (shared : p.default = some (.shared value)) :
      Records heap id value

/-- The machine gives the value to whoever asks. -/
inductive Machine.Provides (machine : Machine) : Value → Prop where
  | global {name : Name} {value : Value} (named : machine.world.globals.get? name = some value) :
      Provides machine value
  | builtin {name : Name} {value : Value} (named : machine.world.builtins.get? name = some value) :
      Provides machine value
  | capability {type : TypeId} {name : Name} {value : Value}
      (defined : machine.world.types.ownCapability type name = some value) :
      Provides machine value
  | handled {error : Error} (member : error ∈ machine.handling) : Provides machine error.payload

/-- What there is to be found by whoever has the values. -/
inductive Machine.Reaches (machine : Machine) (held : Value → Prop) : Identity → Prop where
  | held {value : Value} {id : Identity} (has : held value) (inside : value.Mentions id) :
      Reaches machine held id
  | provided {value : Value} {id : Identity} (provides : machine.Provides value)
      (inside : value.Mentions id) : Reaches machine held id
  | recorded {owner : Identity} {value : Value} {id : Identity}
      (reached : Reaches machine held owner) (records : machine.world.heap.Records owner value)
      (inside : value.Mentions id) : Reaches machine held id

/-- What has been handed out, but is not to be found by whoever has the values. -/
def Machine.Unreached (machine : Machine) (held : Value → Prop) (id : Identity) : Prop :=
  id.index < machine.world.heap.next ∧ ¬machine.Reaches held id

section Closed

variable {concealed : Identity → Bool} {machine : Machine} {heap : Heap} {held : Value → Prop}
  {id : Identity} {value : Value}

theorem Heap.Closed.of_records (closed : heap.Closed concealed)
    (records : heap.Records id value) : id.index < heap.next := by
  by_contra later
  obtain ⟨contents, attributes⟩ := closed.blank id (Nat.le_of_not_lt later)
  cases records with
  | content member =>
      rw [contents] at member
      cases member
  | attached named =>
      rw [attributes] at named
      cases named
  | default defined _ _ => exact later (closed.defined defined)

theorem Heap.Closed.recorded (closed : heap.Closed concealed) (visible : concealed id = false)
    (records : heap.Records id value) : value.InView concealed heap := by
  cases records with
  | content member => exact closed.payload id visible _ member
  | attached named => exact closed.attributes id visible _ _ named
  | default defined member shared => exact closed.signature visible defined _ member _ shared

theorem Machine.Closed.provided (closed : machine.Closed concealed)
    (provides : machine.Provides value) : value.InView concealed machine.world.heap := by
  cases provides with
  | global named => exact closed.world.globals _ _ named
  | builtin named => exact closed.world.builtins _ _ named
  | capability defined => exact closed.world.capability defined
  | handled member => exact closed.handling _ member

/-- A machine is closed if nothing that it provides or records leads out of view. -/
theorem Machine.Closed.of_leads (shown : machine.Closed Identity.shown)
    (old : ∀ id, concealed id = true → id.index < machine.world.heap.next)
    (provided : ∀ value, machine.Provides value → value.InView concealed machine.world.heap)
    (recorded : ∀ id value, concealed id = false → machine.world.heap.Records id value →
      value.InView concealed machine.world.heap) : machine.Closed concealed where
  world :=
    { heap :=
        { old
          defined := shown.world.heap.defined
          blank := shown.world.heap.blank
          payload := fun id visible _ member => recorded id _ visible (.content member)
          attributes := fun id visible _ _ named => recorded id _ visible (.attached named)
          signature := fun visible defined _ member _ shared =>
            recorded _ _ visible (.default defined member shared) }
      capability := fun defined => provided _ (.capability defined)
      globals := fun _ _ named => provided _ (.global named)
      builtins := fun _ _ named => provided _ (.builtin named) }
  handling _ member := provided _ (.handled member)

/-- A machine stays closed if all that is out of reach is concealed. -/
theorem Machine.Closed.of_unreached (shown : machine.Closed Identity.shown)
    (known : ∀ value, held value → value.InView Identity.shown machine.world.heap)
    (conceals : ∀ id, concealed id = true ↔ machine.Unreached held id) :
    machine.Closed concealed ∧ ∀ value, held value → value.InView concealed machine.world.heap := by
  have visible (id : Identity) (handedOut : machine.world.heap.InView Identity.shown id)
      (reached : machine.Reaches held id) : machine.world.heap.InView concealed id := by
    refine ⟨handedOut.1, Bool.eq_false_iff.mpr fun hidden => ?_⟩
    exact ((conceals id).mp hidden).2 reached
  refine ⟨shown.of_leads (fun id hidden => ((conceals id).mp hidden).1) ?_ ?_, ?_⟩
  · exact fun value provides id inside =>
      visible id (shown.provided provides id inside) (.provided provides inside)
  · intro owner value notHidden records id inside
    -- Something is recorded about the owner, so it has been handed out and is not concealed.
    have reached : machine.Reaches held owner := by
      by_contra missed
      have hidden := (conceals owner).mpr ⟨shown.world.heap.of_records records, missed⟩
      exact Bool.false_ne_true (notHidden.symm.trans hidden)
    exact visible id (shown.world.heap.recorded rfl records id inside)
      (.recorded reached records inside)
  · exact fun value has id inside => visible id (known value has id inside) (.held has inside)

end Closed

/-! ## Changes to hidden objects -/

/-- Some hidden objects have got other contents or attributes. -/
inductive Heap.Altered (hidden : Identity → Prop) (heap : Heap) : Heap → Prop where
  | refl : Altered hidden heap heap
  | contents {other : Heap} {id : Identity} (altered : Altered hidden heap other)
      (isHidden : hidden id) (holds : other.payload id ≠ .plain) (payload : Payload) :
      Altered hidden heap (other.setPayload id payload)
  | attributes {other : Heap} {id : Identity} (altered : Altered hidden heap other)
      (isHidden : hidden id) (attributes : Attributes) :
      Altered hidden heap (other.setAttributes id attributes)

/-- Only what is recorded about hidden objects may be different. -/
structure Heap.AgreesOutside (hidden : Identity → Prop) (heap other : Heap) : Prop where
  next : other.next = heap.next
  functions : other.functions = heap.functions
  payload : ∀ id, ¬hidden id → other.payload id = heap.payload id
  attributes : ∀ id, ¬hidden id → other.attributesOf id = heap.attributesOf id

theorem Heap.AgreesOutside.keeps {hidden : Identity → Prop} {heap other : Heap}
    (agrees : heap.AgreesOutside hidden other) : heap.Keeps other :=
  ⟨Nat.le_of_eq agrees.next.symm, fun known => agrees.functions ▸ known⟩

/-- The machine with another heap. -/
def Machine.withHeap (machine : Machine) (heap : Heap) : Machine :=
  { machine with world := { machine.world with heap } }

/-- Only what the heaps record about hidden objects may be different. -/
structure Machine.AgreesOutside (hidden : Identity → Prop) (machine other : Machine) : Prop where
  heap : machine.world.heap.AgreesOutside hidden other.world.heap
  rest : other = machine.withHeap other.world.heap

/-- Run from either machine, the computation does the same and ends the same. -/
structure Computation.Overlooks {α : Type} (body : Computation Machine α)
    (hidden : Identity → Prop) (machine other : Machine) : Prop where
  outcome : (body.run other).1 = (body.run machine).1
  last : (body.run machine).2.AgreesOutside hidden (body.run other).2
  trail : List.Forall₂ (fun moment twin => twin.event = moment.event ∧
    moment.state.AgreesOutside hidden twin.state) (body.trail machine) (body.trail other)

section Veil

variable {concealed : Identity → Bool} {hidden : Identity → Prop} {heap other : Heap}
  {machine twin : Machine}

theorem Table.set_get? {κ α : Type} [DecidableEq κ] {table : Table κ α} {key : κ} {value : α}
    (known : table.get? key = some value) : table.set key value = table := by
  obtain ⟨entries, nodup⟩ := table
  simp only [get?, set, mk.injEq] at known ⊢
  clear nodup
  induction entries with
  | nil => cases known
  | cons entry rest ih =>
      obtain ⟨first, old⟩ := entry
      rw [lookup] at known
      rw [put]
      split at known
      · next same =>
          cases known
          rw [if_pos same, same]
      · next different => rw [if_neg different, ih known]

theorem Heap.veil_setPayload_of_concealed {id : Identity} (conceals : concealed id = true)
    (holds : heap.payload id ≠ .plain) (payload : Payload) :
    (heap.setPayload id payload).veil concealed = heap.veil concealed := by
  obtain ⟨old, recorded⟩ : ∃ old, heap.payloads.get? id = some old := by
    refine Option.ne_none_iff_exists'.mp fun missing => holds ?_
    rw [Heap.payload, missing, Option.getD_none]
  simp only [veil, setPayload, Table.mapValues_set, conceals, if_true]
  rw [Table.set_get?]
  rw [Table.get?_mapValues, recorded, Option.map_some, if_pos conceals]

theorem Heap.veil_setAttributes_of_concealed {id : Identity} (conceals : concealed id = true)
    (attributes : Attributes) :
    (heap.setAttributes id attributes).veil concealed = heap.veil concealed := by
  have dropped : (fun id => !concealed id) id ≠ true := by simp [conceals]
  have same : (heap.attributes.set id attributes).restrict (fun id => !concealed id) =
      heap.attributes.restrict fun id => !concealed id := Table.restrict_set_of_not dropped
  simp only [veil, setAttributes, same]

/-- Changes to concealed objects cannot be seen under the veil. -/
theorem Heap.Altered.veil_eq (altered : heap.Altered hidden other)
    (conceals : ∀ id, hidden id → concealed id = true) :
    other.veil concealed = heap.veil concealed := by
  induction altered with
  | refl => rfl
  | contents _ isHidden holds payload ih =>
      exact (veil_setPayload_of_concealed (conceals _ isHidden) holds payload).trans ih
  | attributes _ isHidden attributes ih =>
      exact (veil_setAttributes_of_concealed (conceals _ isHidden) attributes).trans ih

theorem Heap.agreesOutside_of_veil (same : other.veil concealed = heap.veil concealed)
    (conceals : ∀ id, concealed id = true → hidden id) : heap.AgreesOutside hidden other where
  next := by
    have kept := congrArg Heap.next same
    exact kept
  functions := by
    have kept := congrArg Heap.functions same
    exact kept
  payload id shown := by
    have visible := Bool.eq_false_iff.mpr fun concealed => shown (conceals id concealed)
    have veiled : (other.veil concealed).payload id = other.payload id := payload_veil visible
    rw [← veiled, same, payload_veil visible]
  attributes id shown := by
    have visible := Bool.eq_false_iff.mpr fun concealed => shown (conceals id concealed)
    have veiled : (other.veil concealed).attributesOf id = other.attributesOf id :=
      attributesOf_veil visible
    rw [← veiled, same, attributesOf_veil visible]

theorem Machine.agreesOutside_of_veil (same : twin.veil concealed = machine.veil concealed)
    (conceals : ∀ id, concealed id = true → hidden id) : machine.AgreesOutside hidden twin where
  heap := Heap.agreesOutside_of_veil (congrArg (·.world.heap) same) conceals
  rest := by
    have kept := congrArg (·.withHeap twin.world.heap) same
    exact kept

/-- What is concealed has no part in a heap being closed. -/
theorem Heap.Closed.of_veil (closed : heap.Closed concealed)
    (same : other.veil concealed = heap.veil concealed) : other.Closed concealed := by
  have agrees : heap.AgreesOutside (concealed · = true) other :=
    agreesOutside_of_veil same fun _ hides => hides
  have keeps := agrees.keeps
  have shown {id : Identity} (visible : concealed id = false) : ¬concealed id = true :=
    Bool.eq_false_iff.mp visible
  exact
    { old := fun id hides => agrees.next ▸ closed.old id hides
      defined := fun known => by
        rw [agrees.functions] at known
        exact agrees.next ▸ closed.defined known
      blank := fun id later => by
        rw [agrees.next] at later
        have visible : concealed id = false := Bool.eq_false_iff.mpr fun hides =>
          Nat.not_lt_of_le later (closed.old id hides)
        rw [agrees.payload id (shown visible), agrees.attributes id (shown visible)]
        exact closed.blank id later
      payload := fun id visible =>
        agrees.payload id (shown visible) ▸ (closed.payload id visible).mono keeps
      attributes := fun id visible =>
        agrees.attributes id (shown visible) ▸ (closed.attributes id visible).mono fun _ seen =>
          seen.mono keeps
      signature := fun visible known => by
        rw [agrees.functions] at known
        exact (closed.signature visible known).mono keeps }

theorem Machine.Closed.withHeap (closed : machine.Closed concealed)
    (same : other.veil concealed = machine.world.heap.veil concealed) :
    (machine.withHeap other).Closed concealed := by
  have agrees : machine.world.heap.AgreesOutside (concealed · = true) other :=
    Heap.agreesOutside_of_veil same fun _ hides => hides
  have keeps := agrees.keeps
  exact closed.withWorld keeps (closed.world.withHeap keeps (closed.world.heap.of_veil same))

end Veil

/-! ## Calls overlook what is out of their reach -/

section Overlooking

variable {α : Type} {concealed : Identity → Bool} {hidden : Identity → Prop} {known : Heap}
  {gives : Heap → α → Prop} {body : Computation Machine α} {machine twin : Machine}

/-- What a computation is blind to it overlooks. -/
theorem Computation.Blind.overlooks (blind : body.Blind concealed known gives)
    (closed : machine.Closed concealed) (other : twin.Closed concealed)
    (same : twin.veil concealed = machine.veil concealed)
    (keeps : known.Keeps machine.world.heap) (conceals : ∀ id, concealed id = true → hidden id) :
    body.Overlooks hidden machine twin := by
  have agrees := Machine.agreesOutside_of_veil same conceals
  have ran := blind machine closed keeps
  have also := blind twin other (keeps.trans agrees.heap.keeps)
  have under : Stage.veil concealed twin = Stage.veil concealed machine := same
  have runs : Prod.map id (Stage.veil concealed) (body.run twin) =
      Prod.map id (Stage.veil concealed) (body.run machine) := by rw [← also.run, under, ran.run]
  have trails : (body.trail machine).map (Moment.map (Stage.veil concealed)) =
      (body.trail twin).map (Moment.map (Stage.veil concealed)) := by
    rw [← also.trail, under, ran.trail]
  obtain ⟨outcome, last⟩ := Prod.ext_iff.mp runs
  refine ⟨outcome, Machine.agreesOutside_of_veil last conceals, ?_⟩
  rw [← List.forall₂_eq_eq_eq, List.forall₂_map_left_iff, List.forall₂_map_right_iff] at trails
  refine trails.imp fun moment twin veiled => ?_
  have states := congrArg Moment.state veiled
  have events := congrArg Moment.event veiled
  exact ⟨events.symm, Machine.agreesOutside_of_veil states.symm conceals⟩

end Overlooking

namespace Invocation

/-- All values that have a part in the call. -/
def values : Invocation → List Value
  | value callee arguments =>
      callee :: (arguments.positional ++ arguments.keywords.map (·.2))
  | method receiver _ arguments =>
      receiver :: (arguments.positional ++ arguments.keywords.map (·.2))
  | fast _ operands => operands

theorem all_of_values {holds : Value → Prop} {invocation : Invocation}
    (held : ∀ value ∈ invocation.values, holds value) : invocation.All holds := by
  have taken {first : Value} {arguments : Arguments}
      (held : ∀ value ∈ first :: (arguments.positional ++ arguments.keywords.map (·.2)),
        holds value) : holds first ∧ arguments.All holds := by
    obtain ⟨here, rest⟩ := List.forall_mem_cons.mp held
    obtain ⟨positional, keywords⟩ := List.forall_mem_append.mp rest
    exact ⟨here, positional, List.forall_mem_map.mp keywords⟩
  cases invocation with
  | value callee arguments => exact taken held
  | method receiver name arguments => exact taken held
  | fast name operands => exact held

/-- A call overlooks all changes to objects that are out of the reach of its values. -/
theorem overlooks (depth : Nat) {invocation : Invocation} {machine : Machine} {heap : Heap}
    (shown : machine.Closed Identity.shown)
    (known : ∀ value ∈ invocation.values, value.InView Identity.shown machine.world.heap)
    (altered : machine.world.heap.Altered (machine.Unreached (· ∈ invocation.values)) heap) :
    (invocation.run (Machine.call depth)).Overlooks (machine.Unreached (· ∈ invocation.values))
      machine (machine.withHeap heap) := by
  -- Conceal exactly what is out of reach: the two machines are then the same under the veil.
  obtain ⟨concealed, conceals⟩ : ∃ concealed : Identity → Bool, ∀ id,
      concealed id = true ↔ machine.Unreached (· ∈ invocation.values) id := by
    classical
    exact ⟨fun id => decide (machine.Unreached (· ∈ invocation.values) id),
      fun _ => decide_eq_true_iff⟩
  have same := altered.veil_eq fun id => (conceals id).mpr
  obtain ⟨closed, held⟩ := shown.of_unreached known conceals
  have blind := blind depth (all_of_values held)
  refine blind.overlooks closed (closed.withHeap same) ?_ (.refl _) fun id => (conceals id).mp
  exact congrArg machine.withHeap same

end Invocation

/-! ## New objects -/

/-- The object has come about in between, and nothing that was there before leads to it. -/
structure Machine.Private (before after : Machine) (id : Identity) : Prop where
  new : Heap.IsNew before.world.heap after.world.heap id
  unreached : ∀ {held : Value → Prop},
    (∀ value, held value → value.InView Identity.shown before.world.heap) → ¬after.Reaches held id

/-- Where old objects are as they were, they lead to old objects only. -/
theorem Machine.Closed.private_of_isNew {machine : Machine} {heap : Heap} {id : Identity}
    (closed : machine.Closed Identity.shown) (grown : machine.world.heap.Extends heap)
    (new : Heap.IsNew machine.world.heap heap id) :
    machine.Private (machine.withHeap heap) id := by
  refine ⟨new, fun {held} known reached => Nat.not_lt_of_le new.1 ?_⟩
  clear new
  -- Whatever is reached is older than the new object, by induction on the way to it.
  induction reached with
  | held has inside => exact (known _ has _ inside).1
  | @provided value _ provides inside =>
      have before : machine.Provides value := by
        cases provides with
        | global named => exact .global named
        | builtin named => exact .builtin named
        | capability defined => exact .capability defined
        | handled member => exact .handled member
      exact (closed.provided before _ inside).1
  | @recorded owner value id _ records inside old =>
      have before : machine.world.heap.Records owner value := by
        cases records with
        | content member => exact .content (grown.payload owner old ▸ member)
        | attached named => exact .attached (grown.attributes owner old ▸ named)
        | default defined member shared =>
            exact .default (grown.functions owner old ▸ defined) member shared
      exact (closed.world.heap.recorded rfl before _ inside).1

end ScriptCore
