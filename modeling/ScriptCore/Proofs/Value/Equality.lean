import Mathlib
import ScriptCore.Value

/-!
# Equality of values

Equality relates a value to itself exactly if it contains no NaN, and it is
symmetric.  It is an equivalence on values without floating point numbers.  In
general it is not transitive: an integer is compared with a floating point
number after it has been rounded to one, so that different integers can equal
the same number.
-/

namespace ScriptCore

/-! ## Floating point numbers -/

namespace FloatOrder

theorem beq_comm (x y : Float) : (x == y) = (y == x) := by
  rw [Bool.eq_iff_iff, Float.beq_iff_ne_nan_and_eq, Float.beq_iff_ne_nan_and_eq]
  tauto

theorem beq_trans {x y z : Float} (first : (x == y) = true) (second : (y == z) = true) :
    (x == z) = true := by
  have zeros : (0 : Float) ≠ -0 := by decide
  rw [Float.beq_iff_ne_nan_and_eq] at first second ⊢
  obtain ⟨notNaN, -, first⟩ := first
  obtain ⟨-, notNaN', second⟩ := second
  refine ⟨notNaN, notNaN', ?_⟩
  rcases first with rfl | ⟨rfl, rfl⟩ | ⟨rfl, rfl⟩
  · exact second
  · rcases second with rfl | ⟨same, _⟩ | ⟨_, rfl⟩
    · exact .inr (.inl ⟨rfl, rfl⟩)
    · exact absurd same.symm zeros
    · exact .inl rfl
  · rcases second with rfl | ⟨_, rfl⟩ | ⟨same, _⟩
    · exact .inr (.inr ⟨rfl, rfl⟩)
    · exact .inl rfl
    · exact absurd same zeros

end FloatOrder

namespace Value

variable {a b c v : Value}

/-! ## Values by what they contain -/

mutual

/-- The floating point numbers in a value, its items and the parts of bound methods. -/
def floats : Value → List Float
  | float x => [x]
  | tuple items => floatsOfAll items
  | boundMethod receiver method => floats receiver ++ floats method
  | _ => []

def floatsOfAll : List Value → List Float
  | [] => []
  | item :: rest => floats item ++ floatsOfAll rest

end

/-- Nowhere in the value is a NaN. -/
def NaNFree (v : Value) : Prop := ∀ x ∈ v.floats, ¬x.isNaN = true

instance (v : Value) : Decidable v.NaNFree :=
  inferInstanceAs (Decidable (∀ x ∈ v.floats, ¬x.isNaN = true))

/-- Nowhere in the value is a floating point number. -/
def FloatFree (v : Value) : Prop := v.floats = []

instance (v : Value) : Decidable v.FloatFree :=
  decidable_of_iff (v.floats.isEmpty = true) List.isEmpty_iff

theorem floatsOfAll_eq (items : List Value) : floatsOfAll items = items.flatMap floats := by
  induction items with
  | nil => rfl
  | cons item rest ih => rw [floatsOfAll, ih, List.flatMap_cons]

theorem nanFree_tuple {items : List Value} :
    NaNFree (.tuple items) ↔ ∀ item ∈ items, item.NaNFree := by
  simp only [NaNFree, floats, floatsOfAll_eq, List.mem_flatMap]
  grind

theorem nanFree_boundMethod {receiver method : Value} :
    NaNFree (.boundMethod receiver method) ↔ receiver.NaNFree ∧ method.NaNFree := by
  simp only [NaNFree, floats, List.mem_append]
  grind

theorem floatFree_tuple {items : List Value} :
    FloatFree (.tuple items) ↔ ∀ item ∈ items, item.FloatFree := by
  rw [FloatFree, floats, floatsOfAll_eq, List.flatMap_eq_nil_iff]
  rfl

theorem floatFree_boundMethod {receiver method : Value} :
    FloatFree (.boundMethod receiver method) ↔ receiver.FloatFree ∧ method.FloatFree :=
  List.append_eq_nil_iff

theorem FloatFree.nanFree (free : v.FloatFree) : v.NaNFree := by
  rw [NaNFree, free]
  exact nofun

/-! ## Equality as a relation -/

/-- Which values equal each other, one rule for each pair of kinds. -/
inductive Alike : Value → Value → Prop where
  | none : Alike .none .none
  | bool (p : Bool) : Alike (.bool p) (.bool p)
  | int (n : Int64) : Alike (.int n) (.int n)
  | float {x y : Float} (close : (x == y) = true) : Alike (.float x) (.float y)
  | intFloat {n : Int64} {x : Float} (rounded : (Word.toFloat n == x) = true) :
      Alike (.int n) (.float x)
  | floatInt {n : Int64} {x : Float} (rounded : (Word.toFloat n == x) = true) :
      Alike (.float x) (.int n)
  | boolInt {p : Bool} {n : Int64} (number : (if p then 1 else 0) = n) : Alike (.bool p) (.int n)
  | intBool {p : Bool} {n : Int64} (number : (if p then 1 else 0) = n) : Alike (.int n) (.bool p)
  | str (text : String) : Alike (.str text) (.str text)
  | tuple {as bs : List Value} (items : List.Forall₂ Alike as bs) : Alike (.tuple as) (.tuple bs)
  | object (id : Identity) (s t : TypeId) : Alike (.object id s) (.object id t)
  | type (t : TypeId) : Alike (.type t) (.type t)
  | function (id : Identity) : Alike (.function id) (.function id)
  | native {f g : Native} (same : f.body = g.body) : Alike (.native f) (.native g)
  | boundMethod {r s m n : Value} (receiver : Alike r s) (method : Alike m n) :
      Alike (.boundMethod r m) (.boundMethod s n)
  | error (id : Identity) {s t : TypeId} {first second : Report} {payload other : Value}
      {left right : List Name} :
      Alike (.error id s first payload left) (.error id t second other right)

theorem equalAll_iff {as bs : List Value} :
    equalAll as bs = true ↔ List.Forall₂ (fun a b => a.equal b = true) as bs := by
  induction as generalizing bs with
  | nil => cases bs <;> simp [equalAll]
  | cons a as ih => cases bs <;> simp [equalAll, ih]

/-- Items related in one way are related in another if that holds for those of the first list. -/
theorem forall₂_imp_left {first second : Value → Value → Prop} {as bs : List Value}
    (pairs : List.Forall₂ first as bs) (step : ∀ a ∈ as, ∀ b, first a b → second a b) :
    List.Forall₂ second as bs := by
  induction pairs with
  | nil => exact .nil
  | cons head _ ih =>
      refine .cons (step _ List.mem_cons_self _ head) (ih fun a member => ?_)
      exact step a (List.mem_cons_of_mem _ member)

theorem equal_iff_alike : a.equal b = true ↔ Alike a b := by
  induction a generalizing b with
  | tuple as ih =>
      constructor
      · intro same
        cases b with
        | tuple bs =>
            rw [equal, equalAll_iff] at same
            exact .tuple (forall₂_imp_left same fun a member b => (ih a member).mp)
        | _ => simp [equal] at same
      · intro alike
        cases alike with
        | tuple items =>
            rw [equal, equalAll_iff]
            exact forall₂_imp_left items fun a member b => (ih a member).mpr
  | boundMethod receiver method ihReceiver ihMethod =>
      constructor
      · intro same
        cases b with
        | boundMethod r m =>
            rw [equal, Bool.and_eq_true, ihReceiver, ihMethod] at same
            exact .boundMethod same.1 same.2
        | _ => simp [equal] at same
      · intro alike
        cases alike with
        | boundMethod sameReceiver sameMethod =>
            rw [equal, Bool.and_eq_true, ihReceiver, ihMethod]
            exact ⟨sameReceiver, sameMethod⟩
  | _ =>
      constructor
      · intro same
        cases b <;> simp [equal] at same <;> try subst same
        all_goals constructor <;> first | assumption | rfl
      · intro alike
        cases alike <;> simp [equal, *]

/-! ## Reflexivity and symmetry -/

theorem equal_self_iff (v : Value) : v.equal v = true ↔ v.NaNFree := by
  induction v with
  | tuple items ih =>
      rw [equal, equalAll_iff, List.forall₂_same, nanFree_tuple]
      exact forall₂_congr ih
  | boundMethod receiver method ihReceiver ihMethod =>
      rw [equal, Bool.and_eq_true, ihReceiver, ihMethod, nanFree_boundMethod]
  | _ => simp [equal, NaNFree, floats]

theorem Alike.symm (alike : Alike a b) : Alike b a := by
  induction a generalizing b with
  | tuple as ih =>
      cases alike with
      | tuple items => exact .tuple (forall₂_imp_left items fun a member b => ih a member).flip
  | boundMethod receiver method ihReceiver ihMethod =>
      cases alike with
      | boundMethod sameReceiver sameMethod =>
          exact .boundMethod (ihReceiver sameReceiver) (ihMethod sameMethod)
  | float x =>
      cases alike with
      | @float _ y close => exact .float (FloatOrder.beq_comm y x ▸ close)
      | floatInt rounded => exact .intFloat rounded
  | native f =>
      cases alike with
      | native same => exact .native same.symm
  | _ => cases alike <;> constructor <;> assumption

theorem equal_comm (a b : Value) : a.equal b = b.equal a := by
  rw [Bool.eq_iff_iff, equal_iff_alike, equal_iff_alike]
  exact ⟨.symm, .symm⟩

/-! ## Where equality is not transitive -/

/-- Two different integers on both sides of a number that both are rounded to. -/
inductive RoundedTogether : Value → Value → Value → Prop where
  | intro {m n : Int64} (x : Float) (different : m ≠ n) :
      RoundedTogether (.int m) (.float x) (.int n)

/-- A truth value on one side and a floating point number on the other. -/
inductive TruthAndFloat : Value → Value → Value → Prop where
  | truthFirst (p : Bool) (b : Value) (x : Float) : TruthAndFloat (.bool p) b (.float x)
  | floatFirst (x : Float) (b : Value) (p : Bool) : TruthAndFloat (.float x) b (.bool p)

/--
Three values are related, or somewhere inside them three parts at the same place
are: items of tuples, receivers or methods of bound methods.
-/
inductive Somewhere (related : Value → Value → Value → Prop) : Value → Value → Value → Prop where
  | here {a b c : Value} (found : related a b c) : Somewhere related a b c
  | item {as bs cs : List Value} (place : Nat) {a b c : Value} (left : as[place]? = some a)
      (middle : bs[place]? = some b) (right : cs[place]? = some c)
      (inner : Somewhere related a b c) :
      Somewhere related (.tuple as) (.tuple bs) (.tuple cs)
  | receiver {a b c : Value} (k m n : Value) (inner : Somewhere related a b c) :
      Somewhere related (.boundMethod a k) (.boundMethod b m) (.boundMethod c n)
  | method {a b c : Value} (r s t : Value) (inner : Somewhere related a b c) :
      Somewhere related (.boundMethod r a) (.boundMethod s b) (.boundMethod t c)

theorem Somewhere.or {first second : Value → Value → Value → Prop}
    (either : Somewhere (fun a b c => first a b c ∨ second a b c) a b c) :
    Somewhere first a b c ∨ Somewhere second a b c := by
  induction either with
  | here found => exact found.imp .here .here
  | item place left middle right _ ih =>
      exact ih.imp (.item place left middle right) (.item place left middle right)
  | receiver k m n _ ih => exact ih.imp (.receiver k m n) (.receiver k m n)
  | method r s t _ ih => exact ih.imp (.method r s t) (.method r s t)

/-- Relations of items compose, unless some place is an exception. -/
theorem forall₂_trans_or {related : Value → Value → Prop} {excepted : Value → Value → Value → Prop}
    {as bs cs : List Value} (first : List.Forall₂ related as bs)
    (second : List.Forall₂ related bs cs)
    (step : ∀ a ∈ as, ∀ b c, related a b → related b c → related a c ∨ excepted a b c) :
    List.Forall₂ related as cs ∨ ∃ (place : Nat) (a b c : Value), as[place]? = some a ∧
      bs[place]? = some b ∧ cs[place]? = some c ∧ excepted a b c := by
  induction first generalizing cs with
  | nil =>
      cases second
      exact .inl .nil
  | @cons a b as bs head _ ih =>
      cases second with
      | @cons _ c _ cs next later =>
          rcases step a List.mem_cons_self b c head next with related | excepted
          · rcases ih later fun a member => step a (List.mem_cons_of_mem _ member) with
              rest | ⟨place, a, b, c, left, middle, right, excepted⟩
            · exact .inl (.cons related rest)
            · exact .inr ⟨place + 1, a, b, c, left, middle, right, excepted⟩
          · exact .inr ⟨0, a, b, c, rfl, rfl, rfl, excepted⟩

/-- Equality is transitive but for two kinds of exceptions. -/
theorem Alike.trans_or (first : Alike a b) (second : Alike b c) :
    Alike a c ∨ Somewhere (fun a b c => RoundedTogether a b c ∨ TruthAndFloat a b c) a b c := by
  induction a generalizing b c with
  | bool p =>
      cases first with
      | bool => exact .inl second
      | boolInt number =>
          cases second with
          | int => exact .inl (.boolInt number)
          | intFloat rounded => exact .inr (.here (.inr (.truthFirst p _ _)))
          | @intBool q _ again =>
              have same : p = q := by
                subst again
                revert number
                cases p <;> cases q <;> decide
              exact .inl (same ▸ .bool p)
  | int n =>
      cases first with
      | int => exact .inl second
      | intBool number =>
          cases second with
          | bool => exact .inl (.intBool number)
          | boolInt again =>
              subst number again
              exact .inl (.int _)
      | @intFloat _ x rounded =>
          cases second with
          | float close => exact .inl (.intFloat (FloatOrder.beq_trans rounded close))
          | @floatInt m _ again =>
              by_cases same : n = m
              · exact .inl (same ▸ .int n)
              · exact .inr (.here (.inl (.intro x same)))
  | float x =>
      cases first with
      | @float _ y close =>
          rw [FloatOrder.beq_comm] at close
          cases second with
          | float next =>
              rw [FloatOrder.beq_comm] at close
              exact .inl (.float (FloatOrder.beq_trans close next))
          | floatInt rounded => exact .inl (.floatInt (FloatOrder.beq_trans rounded close))
      | floatInt rounded =>
          cases second with
          | int => exact .inl (.floatInt rounded)
          | intBool number => exact .inr (.here (.inr (.floatFirst x _ _)))
          | intFloat again =>
              rw [FloatOrder.beq_comm] at rounded
              exact .inl (.float (FloatOrder.beq_trans rounded again))
  | tuple as ih =>
      cases first with
      | tuple first =>
          cases second with
          | tuple second =>
              rcases forall₂_trans_or first second fun a member b c => ih a member with
                items | ⟨place, a, b, c, left, middle, right, inner⟩
              · exact .inl (.tuple items)
              · exact .inr (.item place left middle right inner)
  | boundMethod receiver method ihReceiver ihMethod =>
      cases first with
      | boundMethod firstReceiver firstMethod =>
          cases second with
          | boundMethod secondReceiver secondMethod =>
              rcases ihReceiver firstReceiver secondReceiver with sameReceiver | inner
              · rcases ihMethod firstMethod secondMethod with sameMethod | inner
                · exact .inl (.boundMethod sameReceiver sameMethod)
                · exact .inr (.method _ _ _ inner)
              · exact .inr (.receiver _ _ _ inner)
  | native f =>
      cases first with
      | native first =>
          cases second with
          | native second => exact .inl (.native (first.trans second))
  | object id s =>
      cases first
      cases second
      exact .inl (.object id s _)
  | error id =>
      cases first
      cases second
      exact .inl (.error id)
  | _ =>
      cases first
      exact .inl second

/-- Different integers at one place keep the values around them apart. -/
theorem Somewhere.not_equal (apart : Somewhere RoundedTogether a b c) : a.equal c = false := by
  rw [Bool.eq_false_iff]
  induction apart with
  | here found =>
      obtain ⟨x, different⟩ := found
      simpa [equal] using different
  | item place left _ right _ ih =>
      intro same
      rw [equal, equalAll_iff, List.forall₂_iff_get] at same
      obtain ⟨inLeft, rfl⟩ := List.getElem?_eq_some_iff.mp left
      obtain ⟨inRight, rfl⟩ := List.getElem?_eq_some_iff.mp right
      exact ih (same.2 place inLeft inRight)
  | receiver k m n _ ih =>
      intro same
      rw [equal, Bool.and_eq_true] at same
      exact ih same.1
  | method r s t _ ih =>
      intro same
      rw [equal, Bool.and_eq_true] at same
      exact ih same.2

/-! ## Equality as an equivalence -/

/-- Without floating point numbers there are no exceptions. -/
theorem Somewhere.not_floatFree
    (exception : Somewhere (fun a b c => RoundedTogether a b c ∨ TruthAndFloat a b c) a b c) :
    ¬(a.FloatFree ∧ b.FloatFree ∧ c.FloatFree) := by
  induction exception with
  | here found =>
      rintro ⟨left, middle, right⟩
      rcases found with ⟨x, _⟩ | ⟨p, b, x⟩ | ⟨x, b, p⟩
      · cases middle
      · cases right
      · cases left
  | item place left middle right _ ih =>
      rintro ⟨as, bs, cs⟩
      rw [floatFree_tuple] at as bs cs
      exact ih ⟨as _ (List.mem_of_getElem? left), bs _ (List.mem_of_getElem? middle),
        cs _ (List.mem_of_getElem? right)⟩
  | receiver k m n _ ih =>
      rintro ⟨left, middle, right⟩
      rw [floatFree_boundMethod] at left middle right
      exact ih ⟨left.1, middle.1, right.1⟩
  | method r s t _ ih =>
      rintro ⟨left, middle, right⟩
      rw [floatFree_boundMethod] at left middle right
      exact ih ⟨left.2, middle.2, right.2⟩

theorem FloatFree.equal_self (free : v.FloatFree) : v.equal v = true :=
  (equal_self_iff v).mpr free.nanFree

theorem FloatFree.equal_trans (left : a.FloatFree) (middle : b.FloatFree) (right : c.FloatFree)
    (first : a.equal b = true) (second : b.equal c = true) : a.equal c = true := by
  rw [equal_iff_alike] at first second ⊢
  rcases first.trans_or second with alike | exception
  · exact alike
  · exact absurd ⟨left, middle, right⟩ exception.not_floatFree

/-- Equal values equal the same values. -/
theorem FloatFree.equal_congr (left : a.FloatFree) (right : b.FloatFree) (other : c.FloatFree)
    (same : a.equal b = true) : a.equal c = b.equal c := by
  rw [Bool.eq_iff_iff]
  constructor
  · intro first
    rw [equal_comm] at same
    exact right.equal_trans left other same first
  · exact left.equal_trans right other same

/-- What equals one of two different values does not equal the other. -/
theorem FloatFree.not_equal_other (left : a.FloatFree) (right : b.FloatFree) (other : c.FloatFree)
    (different : ¬a.equal b = true) (same : a.equal c = true) : ¬b.equal c = true := by
  intro again
  rw [equal_comm] at again
  exact different (left.equal_trans other right same again)

/--
Equality relates a value to itself exactly if no NaN is in it, and is symmetric.
What equals the same value is equal unless integers are rounded together; this
leaves aside truth values that stand opposite floating point numbers.
-/
theorem equality_is_equivalence_up_to_rounding :
    (∀ v : Value, v.equal v = true ↔ v.NaNFree) ∧
    (∀ a b : Value, a.equal b = b.equal a) ∧
    ∀ a b c : Value, a.equal b = true → b.equal c = true → ¬Somewhere TruthAndFloat a b c →
      (a.equal c = true ↔ ¬Somewhere RoundedTogether a b c) := by
  refine ⟨equal_self_iff, equal_comm, fun a b c first second noTruth => ⟨?_, ?_⟩⟩
  · intro same apart
    rw [apart.not_equal] at same
    cases same
  · intro noRounding
    rw [equal_iff_alike] at first second ⊢
    rcases first.trans_or second with alike | exception
    · exact alike
    · rcases exception.or with rounding | truth
      · exact absurd rounding noRounding
      · exact absurd truth noTruth

/-- The first integer whose successor is rounded to it. -/
def roundingStart : Int64 := 9007199254740992

/-- In a pair whose first items are alike and whose second items are rounded together. -/
theorem equality_is_equivalence_up_to_rounding_pair :
    (tuple [bool true, int roundingStart]).equal (tuple [int 1, float 9007199254740992.0]) = true ∧
      (tuple [int 1, float 9007199254740992.0]).equal
        (tuple [bool true, int (roundingStart + 1)]) = true ∧
      ¬(tuple [bool true, int roundingStart]).equal
        (tuple [bool true, int (roundingStart + 1)]) = true := by
  have first : (tuple [bool true, int roundingStart]).equal
      (tuple [int 1, float 9007199254740992.0]) = true := by decide
  have second : (tuple [int 1, float 9007199254740992.0]).equal
      (tuple [bool true, int (roundingStart + 1)]) = true := by decide
  have noTruth : ¬Somewhere TruthAndFloat (tuple [bool true, int roundingStart])
      (tuple [int 1, float 9007199254740992.0])
      (tuple [bool true, int (roundingStart + 1)]) := by
    rintro (⟨⟨⟩⟩ | ⟨place, left, middle, right, inner⟩)
    rcases place with _ | _ | place
    · cases left
      cases right
      rcases inner with ⟨⟨⟩⟩
    · cases left
      cases right
      rcases inner with ⟨⟨⟩⟩
    · cases left
  have rounding : Somewhere RoundedTogether (tuple [bool true, int roundingStart])
      (tuple [int 1, float 9007199254740992.0])
      (tuple [bool true, int (roundingStart + 1)]) :=
    .item 1 rfl rfl rfl (.here (.intro _ (by decide)))
  have decides := equality_is_equivalence_up_to_rounding.2.2 _ _ _ first second noTruth
  exact ⟨first, second, fun same => decides.mp same rounding⟩

/-- Two different integers equal the same floating point number. -/
theorem rounding_breaks_transitivity :
    (int roundingStart).equal (float 9007199254740992.0) = true ∧
      (float 9007199254740992.0).equal (int (roundingStart + 1)) = true ∧
      (int roundingStart).equal (int (roundingStart + 1)) = false ∧
      (int roundingStart).NaNFree ∧ (float 9007199254740992.0).NaNFree ∧
      (int (roundingStart + 1)).NaNFree := by
  decide

end Value

end ScriptCore
