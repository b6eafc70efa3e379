import ScriptCore.Number.Word

/-!
# Words and whole numbers

Every word stands for a whole number between the least and the greatest word, and every
such number has a word.  Arithmetic in words is exact wherever the result has one.
-/

namespace ScriptCore.Word

/-- The whole number is that of a word. -/
def InRange (n : Int) : Prop := least ≤ n ∧ n ≤ greatest

instance (n : Int) : Decidable (InRange n) := inferInstanceAs (Decidable (_ ∧ _))

variable {a b word : Int64} {n : Int}

theorem inRange_iff :
    InRange n ↔ -9223372036854775808 ≤ n ∧ n ≤ 9223372036854775807 := Iff.rfl

theorem inRange_toInt (word : Int64) : InRange word.toInt := by
  have lower := word.le_toInt
  have upper := word.toInt_lt
  rw [inRange_iff]
  omega

theorem toInt_ofInt (inRange : InRange n) : (Int64.ofInt n).toInt = n := by
  rw [inRange_iff] at inRange
  exact Int64.toInt_ofInt_of_le (by omega) (by omega)

theorem ofInt?_of_inRange (inRange : InRange n) : ofInt? n = some (Int64.ofInt n) :=
  if_pos inRange

theorem ofInt?_eq_none_iff : ofInt? n = none ↔ ¬InRange n := by
  refine ⟨fun none inRange => ?_, fun outside => if_neg outside⟩
  rw [ofInt?_of_inRange inRange] at none
  cases none

theorem ofInt?_eq_some_iff : ofInt? n = some word ↔ word.toInt = n := by
  by_cases inRange : InRange n
  · rw [ofInt?_of_inRange inRange, Option.some_inj, ← Int64.toInt_inj, toInt_ofInt inRange]
    exact eq_comm
  · rw [ofInt?_eq_none_iff.mpr inRange]
    refine ⟨nofun, ?_⟩
    rintro rfl
    exact absurd (inRange_toInt word) inRange

/-- Addition gives the word of the sum, if the sum has one. -/
theorem add?_eq_some_iff : add? a b = some word ↔ word.toInt = a.toInt + b.toInt :=
  ofInt?_eq_some_iff

theorem add?_eq_none_iff : add? a b = none ↔ ¬InRange (a.toInt + b.toInt) := ofInt?_eq_none_iff

/-- Addition that cannot fail is exact where nothing overflows. -/
theorem toInt_add (inRange : InRange (a.toInt + b.toInt)) : (a + b).toInt = a.toInt + b.toInt := by
  have bounds := inRange_iff.mp inRange
  rw [Int64.toInt_add]
  exact Int.bmod_eq_of_le (by omega) (by omega)

/-- The word for a count is that of the count itself as long as there is one. -/
theorem toInt_ofNat (count : Nat) : (ofNat count).toInt = min (count : Int) greatest := by
  have least_le : least ≤ min (count : Int) greatest := by
    rw [least, greatest]
    omega
  rw [ofNat, clamp, Int.max_eq_right least_le]
  exact toInt_ofInt ⟨least_le, Int.min_le_right _ _⟩

end ScriptCore.Word
