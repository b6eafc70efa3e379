import ScriptCore.Clause
import ScriptCore.Text.Rendering
import ScriptCore.Proofs.Registry.Subtyping

/-!
# Well-formed errors

An error is well formed if its type is an exception and, unless it was raised
explicitly, the type that its cause calls for, and if the message that it carries
is the one of its cause.  The message is written once, when the error is made.
Types are never taken away and never get another parent, so a well-formed error
stays well formed.
-/

namespace ScriptCore

/-! ## Growing registries -/

namespace Registry

/-- Types may have been added, and every type that had a parent still has it. -/
structure Grows (before after : Registry) : Prop where
  size : before.size ≤ after.size
  parent : ∀ {type parent}, before.Parent type parent → after.Parent type parent

namespace Grows

variable {before middle after : Registry} {type ancestor : TypeId}

theorem refl (registry : Registry) : Grows registry registry := ⟨Nat.le_refl _, id⟩

theorem trans (early : Grows before middle) (late : Grows middle after) : Grows before after :=
  ⟨Nat.le_trans early.size late.size, fun up => late.parent (early.parent up)⟩

theorem of_sameParents (same : SameParents before after) : Grows before after :=
  ⟨Nat.le_of_eq same.size.symm, same.parent_iff.mpr⟩

/-- A walk goes where it went before, and perhaps on from there. -/
theorem walk_extends (grows : Grows before after) (steps more : Nat) (type : TypeId) :
    before.walk steps type <+: after.walk (steps + more) type := by
  induction steps generalizing type with
  | zero => exact List.nil_prefix
  | succ steps ih =>
      rw [Nat.succ_add, walk, walk, List.cons_prefix_cons]
      refine ⟨rfl, ?_⟩
      cases up : before.parentOf type with
      | none => exact List.nil_prefix
      | some parent =>
          have still : after.parentOf type = some parent := grows.parent up
          rw [still]
          exact ih parent

theorem contains (grows : Grows before after) (known : before.contains type = true) :
    after.contains type = true :=
  contains_iff.mpr (Nat.lt_of_lt_of_le (contains_iff.mp known) grows.size)

theorem isSubtype (grows : Grows before after) (below : before.isSubtype type ancestor = true) :
    after.isSubtype type ancestor = true := by
  have known := contains_of_isSubtype below
  -- With more types a walk may take more steps; they come after the ones it took before.
  obtain ⟨more, longer⟩ : ∃ more, after.size + 1 = before.size + 1 + more :=
    Nat.exists_eq_add_of_le (Nat.succ_le_succ grows.size)
  rw [Registry.isSubtype, List.any_eq_true] at below ⊢
  obtain ⟨other, member, same⟩ := below
  refine ⟨other, ?_, same⟩
  rw [ancestors, if_pos known] at member
  rw [ancestors, if_pos (grows.contains known), longer]
  exact (grows.walk_extends _ more type).subset member

end Grows

/-- No registration takes a parent away, whatever name and parent it is given. -/
theorem grows_register (registry : Registry) (name : Name) (parent : TypeId) :
    Grows registry (registry.register name parent).2 where
  size := by
    unfold register
    cases registry.lookup name with
    | some known => exact Nat.le_refl _
    | none =>
        rw [size, size, List.length_append]
        exact Nat.le_add_right _ _
  parent := by
    intro type above up
    rw [Parent, (keeps_register registry name parent).parentOf (contains_iff.mpr up.lt_size)]
    exact up

end Registry

/-! ## Errors -/

/-- What is promised of every error. -/
structure Error.WellFormed (types : Registry) (error : Error) : Prop where
  /-- A clause that names `Exception` takes the error. -/
  exception : types.isSubtype error.type .exception = true
  /-- The message that the error carries is the one of its cause. -/
  message : error.message = error.cause.message
  /-- An error that was not raised explicitly is of the type its cause calls for. -/
  type : (∀ message, error.cause ≠ .raised message) → error.type = error.cause.defaultType

namespace Error.WellFormed

variable {types later : Registry} {error : Error}

theorem mono (grows : types.Grows later) (wellFormed : error.WellFormed types) :
    error.WellFormed later :=
  ⟨grows.isSubtype wellFormed.exception, wellFormed.message, wellFormed.type⟩

theorem leave (wellFormed : error.WellFormed types) (name : Name) :
    (error.leave name).WellFormed types :=
  ⟨wellFormed.exception, wellFormed.message, wellFormed.type⟩

/-- A clause that names `Exception` takes the error. -/
theorem taken (wellFormed : error.WellFormed types) {filter : List TypeId}
    (named : .exception ∈ filter) : Clause.matchesError types error (.types filter) = true :=
  List.any_eq_true.mpr ⟨.exception, named, wellFormed.exception⟩

/-- Where a clause names `Exception`, it or one before it is chosen. -/
theorem selected (wellFormed : error.WellFormed types) {filter : List TypeId}
    {clauses : List Clause} (named : .exception ∈ filter) (member : .types filter ∈ clauses) :
    (Clause.select types error clauses).isSome = true :=
  List.findIdx?_isSome.trans (List.any_eq_true.mpr ⟨_, member, wellFormed.taken named⟩)

/-- Every cause calls for an exception, so that its type is one wherever those are known. -/
theorem new (builtin : Registry.builtin.Grows types) (cause : Cause) (payload : Value) :
    (Error.new cause.defaultType cause payload).WellFormed types := by
  refine ⟨builtin.isSubtype ?_, rfl, fun _ => rfl⟩
  cases cause <;> rfl

/-- What is raised explicitly is of whatever exception type it is raised as. -/
theorem raised {type : TypeId} (exception : types.isSubtype type .exception = true)
    (names : TypeNames) (heap : Heap) (payload : Value) :
    WellFormed types (.raised names heap type payload) :=
  ⟨exception, rfl, fun explicit => absurd rfl (explicit _)⟩

end Error.WellFormed

/-! ## Errors inside values -/

namespace Value

/-- An error is part of a value, at whatever depth. -/
inductive Contains : Value → Error → Prop where
  | self {id : Identity} {type : TypeId} {report : Report} {payload : Value}
      {backtrace : List Name} :
      Contains (.error id type report payload backtrace) ⟨type, report, payload, backtrace⟩
  | payload {id : Identity} {type : TypeId} {report : Report} {payload : Value}
      {backtrace : List Name} {error : Error} (inside : Contains payload error) :
      Contains (.error id type report payload backtrace) error
  | item {items : List Value} {item : Value} {error : Error} (member : item ∈ items)
      (inside : Contains item error) : Contains (.tuple items) error
  | receiver {receiver method : Value} {error : Error} (inside : Contains receiver error) :
      Contains (.boundMethod receiver method) error
  | method {receiver method : Value} {error : Error} (inside : Contains method error) :
      Contains (.boundMethod receiver method) error

/-- Every error that is part of the value is well formed. -/
def Proper (types : Registry) (value : Value) : Prop :=
  ∀ error, value.Contains error → error.WellFormed types

theorem Proper.mono {types later : Registry} {value : Value} (grows : types.Grows later)
    (proper : value.Proper types) : value.Proper later :=
  fun error inside => (proper error inside).mono grows

end Value

/-- The error is well formed, and so are the errors in its payload. -/
structure Error.Proper (types : Registry) (error : Error) : Prop where
  wellFormed : error.WellFormed types
  payload : error.payload.Proper types

section Values

variable {types later : Registry} {value receiver method payload : Value} {error : Error}
  {items : List Value}

@[simp]
theorem proper_none : Value.none.Proper types := nofun

@[simp]
theorem proper_bool (b : Bool) : (Value.bool b).Proper types := nofun

@[simp]
theorem proper_int (n : Int64) : (Value.int n).Proper types := nofun

@[simp]
theorem proper_float (x : Float) : (Value.float x).Proper types := nofun

@[simp]
theorem proper_str (text : String) : (Value.str text).Proper types := nofun

@[simp]
theorem proper_object (id : Identity) (type : TypeId) : (Value.object id type).Proper types :=
  nofun

@[simp]
theorem proper_type (type : TypeId) : (Value.type type).Proper types := nofun

@[simp]
theorem proper_function (id : Identity) : (Value.function id).Proper types := nofun

@[simp]
theorem proper_native (native : Native) : (Value.native native).Proper types := nofun

@[simp]
theorem proper_ofNat (n : Nat) : (Value.ofNat n).Proper types := nofun

@[simp]
theorem proper_tuple : (Value.tuple items).Proper types ↔ ∀ item ∈ items, item.Proper types := by
  constructor
  · intro proper item member error inside
    exact proper error (.item member inside)
  · rintro proper error (_ | _ | ⟨member, inside⟩)
    exact proper _ member error inside

@[simp]
theorem proper_boundMethod :
    (Value.boundMethod receiver method).Proper types ↔
      receiver.Proper types ∧ method.Proper types := by
  constructor
  · intro proper
    exact ⟨fun error inside => proper error (.receiver inside),
      fun error inside => proper error (.method inside)⟩
  · rintro ⟨first, second⟩ error (_ | _ | _ | inside | inside)
    · exact first error inside
    · exact second error inside

@[simp]
theorem proper_ofOption {option : Option Value} :
    (Value.ofOption option).Proper types ↔ ∀ value ∈ option, value.Proper types := by
  cases option <;> simp [Value.ofOption]

@[simp]
theorem proper_ofText (text : Option String) : (Value.ofText text).Proper types := by
  simp [Value.ofText]

@[simp]
theorem proper_literal (written : Literal) : written.value.Proper types := by
  cases written <;> exact nofun

/-- Making an error into a value hides nothing and adds nothing. -/
@[simp]
theorem proper_toValue (id : Identity) : (error.toValue id).Proper types ↔ error.Proper types := by
  constructor
  · intro proper
    exact ⟨proper _ .self, fun other inside => proper other (.payload inside)⟩
  · rintro proper other (_ | inside)
    · exact proper.wellFormed
    · exact proper.payload other inside

theorem proper_of_asError (proper : value.Proper types) (made : value.asError = some error) :
    error.Proper types := by
  cases value with
  | error id type report payload backtrace =>
      cases made
      exact (proper_toValue id).mp proper
  | _ => cases made

/-! ## Ways to get an error -/

namespace Error.Proper

theorem mono (grows : types.Grows later) (proper : error.Proper types) : error.Proper later :=
  ⟨proper.wellFormed.mono grows, proper.payload.mono grows⟩

theorem leave (proper : error.Proper types) (name : Name) : (error.leave name).Proper types :=
  ⟨proper.wellFormed.leave name, proper.payload⟩

variable (builtin : Registry.builtin.Grows types) (names : TypeNames) (heap : Heap)

include builtin

theorem ofCause (cause : Cause) : Error.Proper types (.ofCause cause) :=
  ⟨.new builtin cause _, proper_str _⟩

theorem keyNotFound (proper : value.Proper types) :
    Error.Proper types (.keyNotFound names heap value) :=
  ⟨.new builtin (.keyNotFound _) value, proper⟩

theorem assertionFailed {message : Option Value} (proper : ∀ value ∈ message, value.Proper types) :
    Error.Proper types (.assertionFailed names heap message) :=
  ⟨.new builtin (.assertionFailed _) _, proper_ofOption.mpr proper⟩

omit builtin in
theorem raised {type : TypeId} (exception : types.isSubtype type .exception = true)
    (proper : payload.Proper types) : Error.Proper types (.raised names heap type payload) :=
  ⟨.raised exception names heap payload, proper⟩

end Error.Proper

end Values

end ScriptCore
