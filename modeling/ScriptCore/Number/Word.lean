import ScriptCore.Number.Binary

/-!
# Sixty-four bit integers

Integers of scripts are signed words of sixty-four bits.  Their arithmetic
fails where the exact result does not fit; conversion to a floating point
number rounds to the nearest one, conversion from one drops the fraction and
stops at the ends of the range.
-/

namespace ScriptCore

namespace Word

/-- The least word, as a number. -/
def least : Int := -9223372036854775808

/-- The greatest word, as a number. -/
def greatest : Int := 9223372036854775807

/-- The word with this value, if there is one. -/
def ofInt? (n : Int) : Option Int64 :=
  if least ≤ n ∧ n ≤ greatest then some (Int64.ofInt n) else none

/-- The word closest to this value. -/
def clamp (n : Int) : Int64 := Int64.ofInt (max least (min n greatest))

/-- The word for a count of things in memory. -/
def ofNat (n : Nat) : Int64 := clamp n

def add? (a b : Int64) : Option Int64 := ofInt? (a.toInt + b.toInt)

def sub? (a b : Int64) : Option Int64 := ofInt? (a.toInt - b.toInt)

def mul? (a b : Int64) : Option Int64 := ofInt? (a.toInt * b.toInt)

def neg? (a : Int64) : Option Int64 := ofInt? (-a.toInt)

/-- The floating point number nearest to a word. -/
def toFloat (n : Int64) : Float := Float.ofInt n.toInt

/-- A floating point number without its fraction, as the closest word; NaN gives zero. -/
def ofFloat (x : Float) : Int64 :=
  match Binary.ofFloat? x with
  | some b => clamp b.truncate
  | none => if x.isNaN then 0 else clamp (if Binary.signBit x then least else greatest)

end Word

end ScriptCore
