import ScriptCore.Proofs.Errors.Worlds

/-!
# Identities in view

What the heap records about objects and functions is found by their identities.  A
value mentions some of them, and so does what the heap records.  If some identities
are concealed, the others are in view once they have been handed out; a heap is closed
if nothing in view mentions anything that is not.
-/

namespace ScriptCore

/--
The value leads to what the heap records about the identity.  An error value has an
identity too, but nothing is ever recorded about it.
-/
inductive Value.Mentions : Value → Identity → Prop where
  | object (id : Identity) (type : TypeId) : Mentions (.object id type) id
  | function (id : Identity) : Mentions (.function id) id
  | item {items : List Value} {item : Value} {id : Identity} (member : item ∈ items)
      (inside : Mentions item id) : Mentions (.tuple items) id
  | receiver {receiver method : Value} {id : Identity} (inside : Mentions receiver id) :
      Mentions (.boundMethod receiver method) id
  | method {receiver method : Value} {id : Identity} (inside : Mentions method id) :
      Mentions (.boundMethod receiver method) id
  | payload {own id : Identity} {type : TypeId} {report : Report} {payload : Value}
      {backtrace : List Name} (inside : Mentions payload id) :
      Mentions (.error own type report payload backtrace) id

theorem Literal.not_mentions {id : Identity} (written : Literal) :
    ¬written.value.Mentions id := by
  cases written <;> exact nofun

/-! ## Heaps that go on -/

namespace Heap

/-- More identities may have been handed out, and all functions are defined as before. -/
structure Keeps (before after : Heap) : Prop where
  next_le : before.next ≤ after.next
  function : ∀ {id definition}, before.functions.get? id = some definition →
    after.functions.get? id = some definition

namespace Keeps

theorem refl (heap : Heap) : heap.Keeps heap := ⟨Nat.le_refl _, id⟩

theorem trans {first middle last : Heap} (left : first.Keeps middle)
    (right : middle.Keeps last) : first.Keeps last :=
  ⟨Nat.le_trans left.next_le right.next_le, fun defined => right.function (left.function defined)⟩

theorem fresh (heap : Heap) : heap.Keeps heap.fresh.2 := ⟨Nat.le_succ _, fun defined => defined⟩

theorem setPayload (heap : Heap) (id : Identity) (payload : Payload) :
    heap.Keeps (heap.setPayload id payload) :=
  ⟨Nat.le_refl _, fun defined => defined⟩

theorem setAttributes (heap : Heap) (id : Identity) (attributes : Attributes) :
    heap.Keeps (heap.setAttributes id attributes) :=
  ⟨Nat.le_refl _, fun defined => defined⟩

theorem newObject (heap : Heap) (type : TypeId) (payload : Payload) :
    heap.Keeps (heap.newObject type payload).2 :=
  (fresh heap).trans (setPayload _ _ payload)

end Keeps

/-- The identity has been handed out, and it is not concealed. -/
def InView (concealed : Identity → Bool) (heap : Heap) (id : Identity) : Prop :=
  id.index < heap.next ∧ concealed id = false

end Heap

/-! ## Values in view -/

/-- The value mentions only identities that are in view. -/
def Value.InView (concealed : Identity → Bool) (heap : Heap) (value : Value) : Prop :=
  ∀ id, value.Mentions id → heap.InView concealed id

section Values

variable {concealed : Identity → Bool} {heap later : Heap} {value receiver method : Value}
  {items : List Value} {error : Error}

theorem Heap.InView.mono {id : Identity} (keeps : heap.Keeps later)
    (seen : heap.InView concealed id) : later.InView concealed id :=
  ⟨Nat.lt_of_lt_of_le seen.1 keeps.next_le, seen.2⟩

theorem Value.InView.mono (keeps : heap.Keeps later) (seen : value.InView concealed heap) :
    value.InView concealed later :=
  fun id mentioned => (seen id mentioned).mono keeps

@[simp]
theorem inView_none : Value.none.InView concealed heap := nofun

@[simp]
theorem inView_bool (b : Bool) : (Value.bool b).InView concealed heap := nofun

@[simp]
theorem inView_int (n : Int64) : (Value.int n).InView concealed heap := nofun

@[simp]
theorem inView_float (x : Float) : (Value.float x).InView concealed heap := nofun

@[simp]
theorem inView_str (text : String) : (Value.str text).InView concealed heap := nofun

@[simp]
theorem inView_type (type : TypeId) : (Value.type type).InView concealed heap := nofun

@[simp]
theorem inView_native (native : Native) : (Value.native native).InView concealed heap := nofun

@[simp]
theorem inView_ofNat (n : Nat) : (Value.ofNat n).InView concealed heap := nofun

@[simp]
theorem inView_object {id : Identity} {type : TypeId} :
    (Value.object id type).InView concealed heap ↔ heap.InView concealed id := by
  constructor
  · exact fun seen => seen id (.object id type)
  · rintro seen _ ⟨⟩
    exact seen

@[simp]
theorem inView_function {id : Identity} :
    (Value.function id).InView concealed heap ↔ heap.InView concealed id := by
  constructor
  · exact fun seen => seen id (.function id)
  · rintro seen _ ⟨⟩
    exact seen

@[simp]
theorem inView_tuple :
    (Value.tuple items).InView concealed heap ↔ ∀ item ∈ items, item.InView concealed heap := by
  constructor
  · exact fun seen item member id inside => seen id (.item member inside)
  · rintro seen id (_ | _ | ⟨member, inside⟩)
    exact seen _ member id inside

@[simp]
theorem inView_boundMethod :
    (Value.boundMethod receiver method).InView concealed heap ↔
      receiver.InView concealed heap ∧ method.InView concealed heap := by
  constructor
  · exact fun seen => ⟨fun id inside => seen id (.receiver inside),
      fun id inside => seen id (.method inside)⟩
  · rintro ⟨first, second⟩ id (_ | _ | _ | inside | inside)
    · exact first id inside
    · exact second id inside

@[simp]
theorem inView_toValue {id : Identity} :
    (error.toValue id).InView concealed heap ↔ error.payload.InView concealed heap := by
  constructor
  · exact fun seen other inside => seen other (.payload inside)
  · rintro seen other (_ | _ | _ | _ | _ | inside)
    exact seen other inside

@[simp]
theorem inView_ofOption {option : Option Value} :
    (Value.ofOption option).InView concealed heap ↔
      ∀ value ∈ option, value.InView concealed heap := by
  cases option <;> simp [Value.ofOption]

@[simp]
theorem inView_ofText (text : Option String) : (Value.ofText text).InView concealed heap := by
  simp [Value.ofText]

@[simp]
theorem inView_ofNames (names : List Name) : (Value.ofNames names).InView concealed heap := by
  simp [Value.ofNames]

@[simp]
theorem inView_literal (written : Literal) : written.value.InView concealed heap :=
  fun _ mentioned => absurd mentioned written.not_mentions

theorem inView_of_asError (seen : value.InView concealed heap)
    (made : value.asError = some error) : error.payload.InView concealed heap := by
  cases value with
  | error id type report payload backtrace =>
      cases made
      exact fun other inside => seen other (.payload inside)
  | _ => cases made

end Values

/-! ## Mappings and contents -/

/-- All keys and values are in view. -/
abbrev Mapping.InView (concealed : Identity → Bool) (heap : Heap) (mapping : Mapping) : Prop :=
  mapping.All (Value.InView concealed heap)

/-- All values that the object contains are in view. -/
def Payload.InView (concealed : Identity → Bool) (heap : Heap) (payload : Payload) : Prop :=
  ∀ value ∈ payload.values, value.InView concealed heap

section Payloads

variable {concealed : Identity → Bool} {heap later : Heap}

theorem Payload.InView.mono {payload : Payload} (keeps : heap.Keeps later)
    (seen : payload.InView concealed heap) : payload.InView concealed later :=
  fun value member => (seen value member).mono keeps

@[simp]
theorem Payload.inView_plain : Payload.plain.InView concealed heap := nofun

@[simp]
theorem Payload.inView_list {items : List Value} :
    (Payload.list items).InView concealed heap ↔ ∀ item ∈ items, item.InView concealed heap :=
  Iff.rfl

@[simp]
theorem Payload.inView_mapping {mapping : Mapping} :
    (Payload.mapping mapping).InView concealed heap ↔ mapping.InView concealed heap := by
  simp only [Payload.InView, Payload.values, List.forall_mem_flatMap, List.forall_mem_cons,
    List.not_mem_nil, false_imp_iff, implies_true, and_true, Mapping.All]

end Payloads

/-! ## Closed heaps -/

/-- The shared defaults of the parameters are in view. -/
def Signature.InView (concealed : Identity → Bool) (heap : Heap) (signature : Signature) : Prop :=
  ∀ p ∈ signature.parameters, ∀ value, p.default = some (.shared value) →
    value.InView concealed heap

theorem Signature.InView.mono {concealed : Identity → Bool} {heap later : Heap}
    {signature : Signature} (keeps : heap.Keeps later) (seen : signature.InView concealed heap) :
    signature.InView concealed later :=
  fun p member value default => (seen p member value default).mono keeps

/-- What is recorded about identities that are not concealed mentions only identities in view. -/
structure Heap.Closed (concealed : Identity → Bool) (heap : Heap) : Prop where
  /-- Only identities that have been handed out are concealed. -/
  old : ∀ id, concealed id = true → id.index < heap.next
  defined : ∀ {id definition}, heap.functions.get? id = some definition → id.index < heap.next
  /-- Nothing is recorded about identities that are still to come. -/
  blank : ∀ id, heap.next ≤ id.index → heap.payload id = .plain ∧ heap.attributesOf id = ∅
  payload : ∀ id, concealed id = false → (heap.payload id).InView concealed heap
  attributes : ∀ id, concealed id = false →
    (heap.attributesOf id).Every (Value.InView concealed heap)
  signature : ∀ {id definition}, concealed id = false →
    heap.functions.get? id = some definition → definition.signature.InView concealed heap

namespace Heap.Closed

variable {concealed : Identity → Bool} {heap : Heap} {value : Value} {id : Identity}

/-- The next identity will be in view as soon as it has been handed out. -/
theorem next_visible (closed : heap.Closed concealed) : concealed ⟨heap.next⟩ = false := by
  by_contra hidden
  exact Nat.lt_irrefl _ (closed.old _ (Bool.eq_true_of_not_eq_false hidden))

theorem ne_of_next_le {other : Identity} (handedOut : id.index < heap.next)
    (later : heap.next ≤ other.index) : id ≠ other := by
  rintro rfl
  exact Nat.not_lt_of_le later handedOut

theorem setPayload (closed : heap.Closed concealed) (handedOut : id.index < heap.next)
    {payload : Payload} (seen : payload.InView concealed heap) :
    (heap.setPayload id payload).Closed concealed where
  old := closed.old
  defined := closed.defined
  blank other later := by
    rw [Heap.payload, Heap.setPayload, Table.get?_set_of_ne _ (ne_of_next_le handedOut later)]
    exact closed.blank other later
  payload other visible := by
    rw [Heap.payload, Heap.setPayload, Table.get?_set]
    split
    · exact seen
    · exact closed.payload other visible
  attributes := closed.attributes
  signature := closed.signature

theorem setAttributes (closed : heap.Closed concealed) (handedOut : id.index < heap.next)
    {attributes : Attributes} (seen : attributes.Every (Value.InView concealed heap)) :
    (heap.setAttributes id attributes).Closed concealed where
  old := closed.old
  defined := closed.defined
  blank other later := by
    rw [Heap.attributesOf, Heap.setAttributes,
      Table.get?_set_of_ne _ (ne_of_next_le handedOut later)]
    exact closed.blank other later
  payload := closed.payload
  attributes other visible := by
    rw [Heap.attributesOf, Heap.setAttributes, Table.get?_set]
    split
    · exact seen
    · exact closed.attributes other visible
  signature := closed.signature

theorem fresh (closed : heap.Closed concealed) : heap.fresh.2.Closed concealed where
  old id hidden := Nat.lt_succ_of_lt (closed.old id hidden)
  defined known := Nat.lt_succ_of_lt (closed.defined known)
  blank id later := closed.blank id (Nat.le_of_succ_le later)
  payload id visible := (closed.payload id visible).mono (Keeps.fresh heap)
  attributes id visible :=
    (closed.attributes id visible).mono fun _ seen => seen.mono (Keeps.fresh heap)
  signature visible known := (closed.signature visible known).mono (Keeps.fresh heap)

theorem fresh_inView (closed : heap.Closed concealed) :
    heap.fresh.2.InView concealed heap.fresh.1 :=
  ⟨Nat.lt_succ_self _, closed.next_visible⟩

theorem newObject (closed : heap.Closed concealed) (type : TypeId) {payload : Payload}
    (seen : payload.InView concealed heap) : (heap.newObject type payload).2.Closed concealed :=
  closed.fresh.setPayload (Nat.lt_succ_self _) (seen.mono (Keeps.fresh heap))

theorem newFunction_keeps (closed : heap.Closed concealed) (definition : FunctionDef) :
    heap.Keeps (heap.newFunction definition).2 where
  next_le := Nat.le_succ _
  function := by
    intro id other known
    rw [Heap.newFunction, Table.get?_set, if_neg]
    · exact known
    · rintro rfl
      exact Nat.lt_irrefl _ (closed.defined known)

theorem newFunction (closed : heap.Closed concealed) {definition : FunctionDef}
    (seen : definition.signature.InView concealed heap) :
    (heap.newFunction definition).2.Closed concealed where
  old := closed.fresh.old
  defined := by
    intro id other known
    rw [Heap.newFunction, Table.get?_set] at known
    split at known
    · next same => exact same ▸ Nat.lt_succ_self _
    · exact closed.fresh.defined known
  blank := closed.fresh.blank
  payload := closed.fresh.payload
  attributes := closed.fresh.attributes
  signature := by
    intro id other visible known
    rw [Heap.newFunction, Table.get?_set] at known
    split at known
    · cases known
      exact seen.mono (closed.newFunction_keeps definition)
    · exact closed.fresh.signature visible known

/-! ## Reading -/

theorem list (closed : heap.Closed concealed) (held : value.InView concealed heap)
    {items : List Value} (found : heap.list? value = some items) :
    ∀ item ∈ items, item.InView concealed heap := by
  cases value with
  | object id type =>
      have contents := closed.payload id (inView_object.mp held).2
      simp only [list?] at found
      split at found
      · next same =>
          cases found
          rw [same] at contents
          exact contents
      · cases found
  | _ => cases found

theorem sequence (closed : heap.Closed concealed) (held : value.InView concealed heap)
    {items : List Value} (found : heap.sequence? value = some items) :
    ∀ item ∈ items, item.InView concealed heap := by
  unfold sequence? at found
  split at found
  · cases found
    exact inView_tuple.mp held
  · exact closed.list held found

theorem mapping (closed : heap.Closed concealed) (held : value.InView concealed heap)
    {mapping : Mapping} (found : heap.mapping? value = some mapping) :
    mapping.InView concealed heap := by
  cases value with
  | object id type =>
      have contents := closed.payload id (inView_object.mp held).2
      simp only [mapping?] at found
      split at found
      · next same =>
          cases found
          rw [same] at contents
          exact Payload.inView_mapping.mp contents
      · cases found
  | _ => cases found

end Heap.Closed

end ScriptCore
