import ScriptCore.Number.Text

/-!
# Numbers in front of other text

The digits of a number tell which number it is, and where they are followed by something
that is no digit they tell where it ends.
-/

namespace ScriptCore

/-! ## Digits -/

/-- A digit of a number in a base up to sixteen. -/
def isNumeral (c : Char) : Bool := c ∈ (List.range 16).map Nat.digitChar

/-- The text does not go on with a digit. -/
def Stops (text : List Char) : Prop := ∀ c ∈ text.head?, isNumeral c = false

theorem stops_nil : Stops [] := nofun

theorem stops_cons {c : Char} {text : List Char} (other : isNumeral c = false) :
    Stops (c :: text) := by
  rintro _ ⟨⟩
  exact other

theorem isNumeral_digitChar {digit : Nat} (small : digit < 16) :
    isNumeral digit.digitChar = true :=
  decide_eq_true (List.mem_map_of_mem (List.mem_range.mpr small))

theorem digitChar_inj {digit other : Nat} (small : digit < 16) (otherSmall : other < 16)
    (same : digit.digitChar = other.digitChar) : digit = other := by
  have decided : ∀ one < 16, ∀ two < 16, Nat.digitChar one = Nat.digitChar two → one = two := by
    decide
  exact decided digit small other otherSmall same

/-- Up to the first character that is no digit, two texts in which digits come first are equal. -/
theorem append_inj_of_numerals {digits others text rest : List Char}
    (numerals : ∀ c ∈ digits, isNumeral c = true) (otherNumerals : ∀ c ∈ others, isNumeral c = true)
    (stops : Stops text) (restStops : Stops rest) (same : digits ++ text = others ++ rest) :
    digits = others ∧ text = rest := by
  induction digits generalizing others with
  | nil =>
      cases others with
      | nil => exact ⟨rfl, same⟩
      | cons c others =>
          obtain rfl : text = c :: (others ++ rest) := same
          have other := stops c rfl
          rw [otherNumerals c List.mem_cons_self] at other
          cases other
  | cons c digits ih =>
      cases others with
      | nil =>
          obtain rfl : c :: (digits ++ text) = rest := same
          have other := restStops c rfl
          rw [numerals c List.mem_cons_self] at other
          cases other
      | cons d others =>
          obtain ⟨rfl, later⟩ := List.cons.inj same
          obtain ⟨rfl, after⟩ := ih (List.forall_mem_cons.mp numerals).2
            (List.forall_mem_cons.mp otherNumerals).2 later
          exact ⟨rfl, after⟩

section Bases

variable {base : Nat} (greater : 1 < base) (small : base ≤ 16)

include greater small

theorem isNumeral_of_mem_toDigits {n : Nat} {c : Char} (member : c ∈ base.toDigits n) :
    isNumeral c = true := by
  induction n using Nat.strongRecOn with
  | ind n ih =>
      by_cases single : n < base
      · rw [Nat.toDigits_of_lt_base single, List.mem_singleton] at member
        rw [member]
        exact isNumeral_digitChar (Nat.lt_of_lt_of_le single small)
      · have atLeast := Nat.le_of_not_lt single
        rw [Nat.toDigits_of_base_le greater atLeast, List.mem_append, List.mem_singleton] at member
        rcases member with earlier | rfl
        · exact ih (n / base) (Nat.div_lt_self (by omega) greater) earlier
        · exact isNumeral_digitChar (Nat.lt_of_lt_of_le (Nat.mod_lt n (by omega)) small)

theorem toDigits_inj {m n : Nat} (same : base.toDigits m = base.toDigits n) : m = n := by
  induction m using Nat.strongRecOn generalizing n with
  | ind m ih =>
      have digit (k : Nat) : k % base < 16 := Nat.lt_of_lt_of_le (Nat.mod_lt k (by omega)) small
      have lengths := congrArg List.length same
      by_cases single : m < base
      · by_cases otherSingle : n < base
        · rw [Nat.toDigits_of_lt_base single, Nat.toDigits_of_lt_base otherSingle] at same
          exact digitChar_inj (by omega) (by omega) (List.singleton_inj.mp same)
        · rw [Nat.toDigits_of_lt_base single,
            Nat.toDigits_of_base_le greater (Nat.le_of_not_lt otherSingle), List.length_append,
            List.length_singleton, List.length_singleton] at lengths
          have positive := Nat.length_toDigits_pos (b := base) (n := n / base)
          omega
      · rw [Nat.toDigits_of_base_le greater (Nat.le_of_not_lt single)] at same lengths
        by_cases otherSingle : n < base
        · rw [Nat.toDigits_of_lt_base otherSingle, List.length_append, List.length_singleton,
            List.length_singleton] at lengths
          have positive := Nat.length_toDigits_pos (b := base) (n := m / base)
          omega
        · rw [Nat.toDigits_of_base_le greater (Nat.le_of_not_lt otherSingle)] at same
          obtain ⟨front, last⟩ := List.append_inj' same rfl
          have quotients := ih (m / base) (Nat.div_lt_self (by omega) greater) front
          have remainders := digitChar_inj (digit m) (digit n) (List.singleton_inj.mp last)
          rw [← Nat.div_add_mod m base, quotients, remainders, Nat.div_add_mod]

/-- A number is told from its digits, where something else follows them. -/
theorem toDigits_append_inj {m n : Nat} {text rest : List Char} (stops : Stops text)
    (restStops : Stops rest) (same : base.toDigits m ++ text = base.toDigits n ++ rest) :
    m = n ∧ text = rest := by
  obtain ⟨digits, after⟩ := append_inj_of_numerals
    (fun _ => isNumeral_of_mem_toDigits greater small)
    (fun _ => isNumeral_of_mem_toDigits greater small) stops restStops same
  exact ⟨toDigits_inj greater small digits, after⟩

theorem exists_toDigits_eq_cons (n : Nat) :
    ∃ c digits, base.toDigits n = c :: digits ∧ isNumeral c = true := by
  cases written : base.toDigits n with
  | nil =>
      have positive := Nat.length_toDigits_pos (b := base) (n := n)
      rw [written] at positive
      cases positive
  | cons c digits =>
      refine ⟨c, digits, rfl, isNumeral_of_mem_toDigits greater small (n := n) ?_⟩
      rw [written]
      exact List.mem_cons_self

end Bases

/-! ## Whole numbers -/

namespace NumberText

/-- A whole number begins with its sign or with a digit. -/
theorem exists_ofInt_eq_cons (n : Int) :
    ∃ c text, ofInt n = c :: text ∧ (c = '-' ∨ isNumeral c = true) := by
  unfold ofInt
  split
  · exact ⟨'-', _, rfl, .inl rfl⟩
  · obtain ⟨c, digits, written, numeral⟩ :=
      exists_toDigits_eq_cons (by decide : 1 < 10) (by decide) n.natAbs
    exact ⟨c, digits, written, .inr numeral⟩

/-- No number begins with a sign and is written without one. -/
theorem toDigits_append_ne_sign (n : Nat) (text rest : List Char) :
    Nat.toDigits 10 n ++ text ≠ '-' :: rest := by
  obtain ⟨c, digits, written, numeral⟩ :=
    exists_toDigits_eq_cons (by decide : 1 < 10) (by decide) n
  rw [written]
  rintro ⟨⟩
  cases numeral

theorem ofInt_append_inj {m n : Int} {text rest : List Char} (stops : Stops text)
    (restStops : Stops rest) (same : ofInt m ++ text = ofInt n ++ rest) : m = n ∧ text = rest := by
  have magnitudes {m n : Nat} (same : Nat.toDigits 10 m ++ text = Nat.toDigits 10 n ++ rest) :
      m = n ∧ text = rest := toDigits_append_inj (by decide) (by decide) stops restStops same
  unfold ofInt at same
  split at same
  · split at same
    · obtain ⟨equal, after⟩ := magnitudes (List.cons.inj same).2
      exact ⟨by omega, after⟩
    · exact absurd same.symm (toDigits_append_ne_sign _ _ _)
  · split at same
    · exact absurd same (toDigits_append_ne_sign _ _ _)
    · obtain ⟨equal, after⟩ := magnitudes same
      exact ⟨by omega, after⟩

end NumberText

end ScriptCore
