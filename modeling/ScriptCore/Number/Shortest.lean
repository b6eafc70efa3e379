import ScriptCore.Number.Binary

/-!
# The shortest decimal that reads back

Every finite number is the nearest one to all reals in an interval around it.
The shortest decimal for it is the point of that interval on the coarsest
decimal grid `{ d * 10 ^ p }` that has one; of two such points the nearer is
taken, and the larger if both are equally near.

All comparisons are made on whole numbers: quarter units of the last binary
place, scaled by a power of ten.
-/

namespace ScriptCore

/-- The number `digits * 10 ^ exponent`. -/
structure Decimal where
  digits : Nat
  exponent : Int
deriving DecidableEq, Repr

namespace Shortest

/-- An interval of reals, in units of `1 / denominator`. -/
structure Interval where
  lower : Nat
  middle : Nat
  upper : Nat
  denominator : Nat
  closed : Bool

/--
The reals that round to `b`.  The lower half of the interval is only half as
long where the numbers below `b` lie closer together; the ends belong to it
when the mantissa is even.
-/
def interval (b : Binary) : Interval :=
  let stretch := Nat.pow 2 b.exponent.toNat
  let below :=
    if b.mantissa = Binary.hiddenBit ∧ Binary.leastExponent < b.exponent then 1 else 2
  { lower := (4 * b.mantissa - below) * stretch
    middle := 4 * b.mantissa * stretch
    upper := (4 * b.mantissa + 2) * stretch
    denominator := 4 * Nat.pow 2 (-b.exponent).toNat
    closed := b.mantissa % 2 = 0 }

/-- Whether `point` lies in the interval, all ends multiplied by `scale`. -/
def Interval.covers (i : Interval) (scale point : Nat) : Bool :=
  if i.closed then i.lower * scale ≤ point && point ≤ i.upper * scale
  else i.lower * scale < point && point < i.upper * scale

/-- The best point of the interval on the grid of multiples of `10 ^ exponent`. -/
def onGrid (i : Interval) (exponent : Int) : Option Decimal :=
  let scale := Nat.pow 10 (-exponent).toNat
  let unit := Nat.pow 10 exponent.toNat * i.denominator
  let target := i.middle * scale
  let below := target / unit
  let above := below + 1
  match i.covers scale (below * unit), i.covers scale (above * unit) with
  | true, true =>
      if target - below * unit < above * unit - target then some ⟨below, exponent⟩
      else some ⟨above, exponent⟩
  | true, false => some ⟨below, exponent⟩
  | false, true => some ⟨above, exponent⟩
  | false, false => none

/-- No finite number needs a grid above this one. -/
def coarsest : Int := 309

/-- Seventeen digits below the least exponent are always enough. -/
def gridCount : Nat := 309 + 343

/-- The shortest decimal of a positive number. -/
def decimal (b : Binary) : Decimal :=
  let around := interval b
  ((List.range gridCount).findSome? fun (step : Nat) => onGrid around (coarsest - step)).getD
    ⟨b.wholePart, 0⟩

end Shortest

end ScriptCore
