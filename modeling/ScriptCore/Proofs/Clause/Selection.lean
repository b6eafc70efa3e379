import ScriptCore.Clause
import ScriptCore.Proofs.Registry.Subtyping

/-!
# Which clause takes an error

Clauses are asked in order, and the first one that takes errors of the type is
selected.  An error of a narrower type is taken at least as early, and clauses that
cannot take the error make no difference wherever they stand.
-/

namespace ScriptCore

/-! ## Clauses that take an error -/

namespace Clause

/-- The clause takes errors of this type. -/
inductive Takes (registry : Registry) (raised : TypeId) : Clause → Prop where
  | types {filter : List TypeId} {type : TypeId} (listed : type ∈ filter)
      (above : type ∈ registry.ancestors raised) : Takes registry raised (.types filter)
  | bare : Takes registry raised .bare

variable {registry : Registry} {raised : TypeId} {clause : Clause} {clauses : List Clause}

theorem accepts_iff : clause.accepts registry raised = true ↔ clause.Takes registry raised := by
  cases clause with
  | types filter =>
      simp only [accepts, Registry.isSubtype, List.any_eq_true, decide_eq_true_eq]
      refine ⟨?_, ?_⟩
      · rintro ⟨type, listed, _, above, rfl⟩
        exact .types listed above
      · rintro (@⟨_, type, listed, above⟩)
        exact ⟨type, listed, type, above, rfl⟩
  | unresolved name =>
      refine ⟨?_, ?_⟩
      · intro accepted
        cases accepted
      · intro taken
        cases taken
  | bare => exact ⟨fun _ => .bare, fun _ => rfl⟩

/-- The first clause that takes errors of this type stands at this place. -/
structure FirstAt (registry : Registry) (raised : TypeId) (clauses : List Clause) (index : Nat) :
    Prop where
  takes : ∃ clause, clauses[index]? = some clause ∧ clause.Takes registry raised
  first : ∀ earlier < index, ∀ clause, clauses[earlier]? = some clause →
    ¬ clause.Takes registry raised

theorem firstAt_of_select {error : Error} {index : Nat}
    (selected : select registry error clauses = some index) :
    FirstAt registry error.type clauses index := by
  obtain ⟨inRange, takes, first⟩ := List.findIdx?_eq_some_iff_getElem.mp selected
  refine ⟨⟨_, List.getElem?_eq_getElem inRange, accepts_iff.mp takes⟩, ?_⟩
  intro earlier before clause there taken
  obtain ⟨_, rfl⟩ := List.getElem?_eq_some_iff.mp there
  exact first earlier before (accepts_iff.mpr taken)

theorem select_eq_none_iff {error : Error} :
    select registry error clauses = none ↔
      ∀ clause ∈ clauses, ¬ clause.Takes registry error.type := by
  rw [select, List.findIdx?_eq_none_iff]
  refine forall₂_congr fun clause _ => ?_
  rw [matchesError, ← accepts_iff, Bool.not_eq_true]

theorem exists_select {error : Error}
    (taken : ∃ clause ∈ clauses, clause.Takes registry error.type) :
    ∃ index, select registry error clauses = some index := by
  cases selected : select registry error clauses with
  | some index => exact ⟨index, rfl⟩
  | none =>
      obtain ⟨clause, member, takes⟩ := taken
      exact absurd takes (select_eq_none_iff.mp selected clause member)

/-! ## Narrower errors -/

/-- What takes errors of a type takes those of all types below it. -/
theorem Takes.narrower {lower upper : TypeId}
    (within : registry.ancestors upper ⊆ registry.ancestors lower)
    (takes : clause.Takes registry upper) : clause.Takes registry lower := by
  cases takes with
  | types listed above => exact .types listed (within above)
  | bare => exact .bare

/-- The clause that takes the wider error is reached only if none before it takes the narrower. -/
theorem exists_earlier_select {wider narrower : Error} {index : Nat}
    (within : registry.ancestors wider.type ⊆ registry.ancestors narrower.type)
    (selected : select registry wider clauses = some index) :
    ∃ earlier ≤ index, select registry narrower clauses = some earlier := by
  obtain ⟨clause, there, takes⟩ := (firstAt_of_select selected).takes
  have taken := takes.narrower within
  obtain ⟨earlier, chosen⟩ := exists_select ⟨clause, List.mem_of_getElem? there, taken⟩
  refine ⟨earlier, ?_, chosen⟩
  by_contra later
  exact (firstAt_of_select chosen).first index (Nat.lt_of_not_le later) clause there taken

/-! ## Clauses that make no difference -/

/-- The clause cannot take errors of this type. -/
inductive Idle (registry : Registry) (raised : TypeId) : Clause → Prop where
  | unresolved (name : Name) : Idle registry raised (.unresolved name)
  /-- None of the types is the type raised or above it; there may be no types at all. -/
  | types {filter : List TypeId} (apart : ∀ type ∈ filter, type ∉ registry.ancestors raised) :
      Idle registry raised (.types filter)

theorem Idle.not_takes (idle : clause.Idle registry raised) : ¬ clause.Takes registry raised := by
  intro takes
  cases takes with
  | types listed above =>
      cases idle with
      | types apart => exact apart _ listed above
  | bare => cases idle

/-- Where a place goes when something is inserted at the place `inserted`. -/
def moved (inserted place : Nat) : Nat := if place < inserted then place else place + 1

/--
The clauses after any number of idle ones were inserted, one after the other and each at
any place; the function says where each of the first clauses has gone.
-/
inductive Padded (registry : Registry) (raised : TypeId) (clauses : List Clause) :
    List Clause → (Nat → Nat) → Prop where
  | refl : Padded registry raised clauses clauses id
  | insert {front back : List Clause} {place : Nat → Nat} {clause : Clause}
      (padded : Padded registry raised clauses (front ++ back) place)
      (idle : clause.Idle registry raised) :
      Padded registry raised clauses (front ++ clause :: back) (moved front.length ∘ place)

theorem getElem?_moved (front : List Clause) (clause : Clause) (back : List Clause)
    (place : Nat) :
    (front ++ clause :: back)[moved front.length place]? = (front ++ back)[place]? := by
  unfold moved
  split
  · next before =>
      rw [List.getElem?_append_left before, List.getElem?_append_left before]
  · next beyond =>
      have reached : front.length ≤ place := Nat.le_of_not_lt beyond
      rw [List.getElem?_append_right reached, List.getElem?_append_right (Nat.le_succ_of_le reached),
        Nat.succ_sub reached, List.getElem?_cons_succ]

/-- One idle clause moves the selected one, or leaves it where it is, and changes nothing else. -/
theorem select_insert {error : Error} (idle : clause.Idle registry error.type)
    (front back : List Clause) :
    select registry error (front ++ clause :: back) =
      (select registry error (front ++ back)).map (moved front.length) := by
  have passed : clause.matchesError registry error = false := by
    rw [← Bool.not_eq_true]
    exact fun accepted => idle.not_takes (accepts_iff.mp accepted)
  simp only [select, List.findIdx?_append, List.findIdx?_cons, passed]
  cases inFront : front.findIdx? (·.matchesError registry error) with
  | some index =>
      have before : index < front.length := (List.findIdx?_eq_some_iff_getElem.mp inFront).1
      simp only [Option.some_or, Option.map_some, moved, before, if_true]
  | none =>
      simp only [Option.none_or, Option.map_map, Bool.false_eq_true, if_false]
      refine congrArg (Option.map · _) (funext fun index => ?_)
      simp only [Function.comp_apply, moved]
      rw [if_neg (Nat.not_lt_of_le (Nat.le_add_left _ _))]
      omega

namespace Padded

variable {after : List Clause} {place : Nat → Nat}

/-- Each of the first clauses stands at its new place. -/
theorem getElem?_eq (padded : Padded registry raised clauses after place) (index : Nat) :
    after[place index]? = clauses[index]? := by
  induction padded with
  | refl => rfl
  | insert _ _ ih => rw [Function.comp_apply, getElem?_moved, ih]

/-- The clause that was selected is selected still. -/
theorem select_eq {error : Error} (padded : Padded registry error.type clauses after place) :
    select registry error after = (select registry error clauses).map place := by
  induction padded with
  | refl => rw [Option.map_id, id]
  | insert _ idle ih => rw [select_insert idle, ih, Option.map_map]

end Padded

/--
Where every type is registered after its parent, a clause that takes errors of a type
takes those of all types below it, and the selection comes to an error of a type below
at the same clause or an earlier one.  Whatever the clauses are, inserting clauses that
cannot take an error leaves the selected clause selected.
-/
theorem selection_follows_subtyping
    (ordered : ∀ type parent, registry.Parent type parent → parent.index < type.index) :
    (∀ lower upper, registry.isSubtype lower upper = true →
      (∀ clause : Clause, clause.accepts registry upper = true →
        clause.accepts registry lower = true) ∧
      ∀ (clauses : List Clause) (wider narrower : Error) (index : Nat),
        wider.type = upper → narrower.type = lower →
        select registry wider clauses = some index →
        ∃ earlier ≤ index, select registry narrower clauses = some earlier) ∧
    ∀ (error : Error) (clauses after : List Clause) (place : Nat → Nat),
      Padded registry error.type clauses after place →
      select registry error after = (select registry error clauses).map place ∧
        ∀ index, after[place index]? = clauses[index]? := by
  refine ⟨?_, ?_⟩
  · intro lower upper below
    obtain ⟨chain, walk⟩ : ∃ chain, Registry.Chain registry lower chain :=
      Registry.exists_chain_of_parents_first fun type parent up => .inl (ordered type parent up)
    have within := walk.ancestors_subset below
    refine ⟨?_, ?_⟩
    · intro clause accepted
      exact accepts_iff.mpr ((accepts_iff.mp accepted).narrower within)
    · rintro clauses wider narrower index rfl rfl selected
      exact exists_earlier_select within selected
  · intro error clauses after place padded
    exact ⟨padded.select_eq, padded.getElem?_eq⟩

/-- Clauses for a type, for two types above it, and for all errors. -/
def layered : List Clause := [.types [⟨25⟩], .types [.indexError, .lookupError], .bare]

/-- An error of a given type and nothing more. -/
def plainError (type : TypeId) : Error := .new type (.raised "") .none

/-- The narrower error is taken earlier, also behind a clause without a type and before another. -/
theorem selection_follows_subtyping_layered :
    select Registry.orderly (plainError .lookupError) layered = some 1 ∧
      (∃ earlier ≤ 1, select Registry.orderly (plainError ⟨26⟩) layered = some earlier) ∧
      select Registry.orderly (plainError ⟨26⟩)
        (.unresolved "E" :: .types [⟨25⟩] :: .types [.typeError] :: layered.tail) = some 1 := by
  have registered : Registry.Registered (fun registry parent => registry.contains parent = true)
      Registry.orderly :=
    .register (.register .builtin "A" (by decide)) "B" (by decide)
  obtain ⟨narrows, pads⟩ := selection_follows_subtyping fun type parent up =>
    registered.parent_lt up
  have wide : select Registry.orderly (plainError .lookupError) layered = some 1 := by decide
  have below : Registry.orderly.isSubtype ⟨26⟩ .lookupError = true := by decide
  refine ⟨wide, (narrows _ _ below).2 layered _ (plainError ⟨26⟩) 1 rfl rfl wide, ?_⟩
  have apart : ∀ type ∈ [TypeId.typeError], type ∉ Registry.orderly.ancestors ⟨26⟩ := by decide
  have first : Padded Registry.orderly ⟨26⟩ layered ([] ++ .unresolved "E" :: layered) _ :=
    .insert .refl (.unresolved "E")
  have second : Padded Registry.orderly ⟨26⟩ layered
      ([.unresolved "E", .types [⟨25⟩]] ++ .types [.typeError] :: layered.tail) _ :=
    .insert first (.types apart)
  have selected : select Registry.orderly (plainError ⟨26⟩) layered = some 0 := by decide
  have shifted := (pads (plainError ⟨26⟩) layered _ _ second).1
  rw [selected] at shifted
  exact shifted

end Clause

end ScriptCore
