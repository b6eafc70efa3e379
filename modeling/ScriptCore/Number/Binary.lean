/-!
# Double precision numbers, taken apart

A finite double precision number is a whole number times a power of two.  This
module reads both from the bits.
-/

namespace ScriptCore

/-- A finite number `± mantissa * 2 ^ exponent`. -/
structure Binary where
  negative : Bool
  mantissa : Nat
  exponent : Int
deriving DecidableEq, Repr

namespace Binary

/-- The mantissa of the smallest normal number: one bit above the fifty-two of the fraction. -/
def hiddenBit : Nat := 4503599627370496

/-- The place of the sign, above all other bits. -/
def signPlace : Nat := 9223372036854775808

/-- The exponent of all subnormal numbers. -/
def leastExponent : Int := -1074

/-- The sign bit of a number, set also on negative zero. -/
def signBit (x : Float) : Bool := signPlace ≤ x.toBits.toNat

/-- Sign, mantissa and exponent of a finite number; nothing for infinities and NaN. -/
def ofFloat? (x : Float) : Option Binary :=
  let bits := x.toBits.toNat
  let field := bits / hiddenBit % 2048
  let fraction := bits % hiddenBit
  if field = 2047 then none
  else if field = 0 then some ⟨signBit x, fraction, leastExponent⟩
  else some ⟨signBit x, hiddenBit + fraction, leastExponent + (field - 1 : Nat)⟩

/-- Whether the number is whole. -/
def isWhole (b : Binary) : Bool :=
  0 ≤ b.exponent || b.mantissa % Nat.pow 2 (-b.exponent).toNat = 0

/-- The distance from zero, rounded down to a whole number. -/
def wholePart (b : Binary) : Nat :=
  if 0 ≤ b.exponent then b.mantissa * Nat.pow 2 b.exponent.toNat
  else b.mantissa / Nat.pow 2 (-b.exponent).toNat

/-- The number without its fractional part. -/
def truncate (b : Binary) : Int := if b.negative then -b.wholePart else b.wholePart

end Binary

end ScriptCore
