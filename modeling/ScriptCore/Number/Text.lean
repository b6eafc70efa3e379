import ScriptCore.Number.Shortest

/-!
# Numbers as text

Whole numbers are written in decimal.  A floating point number that is whole
is written exactly, with one zero after the point; any other finite one as the
shortest decimal that reads back, never with an exponent.
-/

namespace ScriptCore

namespace NumberText

/-- A whole number in decimal. -/
def ofInt (n : Int) : List Char :=
  if n < 0 then '-' :: Nat.toDigits 10 n.natAbs else Nat.toDigits 10 n.natAbs

/-- A decimal in positional notation. -/
def ofDecimal (d : Decimal) : List Char :=
  let digits := Nat.toDigits 10 d.digits
  let places := (-d.exponent).toNat
  if places = 0 then digits ++ List.replicate d.exponent.toNat '0'
  else
    let padded := List.replicate (places + 1 - digits.length) '0' ++ digits
    padded.take (padded.length - places) ++ '.' :: padded.drop (padded.length - places)

/-- A sign in front of text, if the number has one. -/
def signed (negative : Bool) (text : List Char) : List Char :=
  if negative then '-' :: text else text

/-- A floating point number. -/
def ofFloat (x : Float) : List Char :=
  match Binary.ofFloat? x with
  | some b =>
      signed b.negative <|
        if b.isWhole then Nat.toDigits 10 b.wholePart ++ ['.', '0']
        else ofDecimal (Shortest.decimal b)
  | none => if x.isNaN then ['N', 'a', 'N'] else signed (Binary.signBit x) ['i', 'n', 'f']

end NumberText

end ScriptCore
