import ScriptCore.Proofs.Number.Digits
import ScriptCore.Proofs.Text.Cycles

/-!
# Reading values back

The text of a value that is built from nothing else than the unit, truth values, integers,
strings and tuples tells which value it is.  Where it stands in front of other text that
does not go on with a digit, it also tells where it ends.
-/

namespace ScriptCore

/-! ## Strings -/

namespace Quoted

/-- The characters that are escaped by name, with their names. -/
def escapeNames : List (Char × Char) :=
  [('\t', 't'), ('\n', 'n'), ('\r', 'r'), ('\'', '\''), ('"', '"'), ('\\', '\\')]

/-- How a character stands in a quoted string. -/
inductive Spells : Char → List Char → Prop where
  | named {c name : Char} (listed : (c, name) ∈ escapeNames) : Spells c ['\\', name]
  | plain {c : Char} (noQuote : c ≠ '\'') (noEscape : c ≠ '\\') : Spells c [c]
  | code (c : Char) : Spells c (codePoint c)

theorem spells_escape (c : Char) : Spells c (escape c) := by
  unfold escape
  -- the characters that have names, in the order of the list
  iterate 6
    split
    · next same =>
        subst same
        exact .named (by decide)
  split
  · next noQuote _ noEscape _ => exact .plain noQuote noEscape
  · exact .code c

namespace Spells

variable {c d : Char} {one other text rest : List Char}

/-- A name tells the character, and no name is taken for a code point. -/
theorem name_inj : ∀ left ∈ escapeNames, ∀ right ∈ escapeNames,
    left.2 = right.2 → left.1 = right.1 := by
  decide

theorem name_ne_code : ∀ entry ∈ escapeNames, entry.2 ≠ 'u' := by
  decide

/-- Reading a character leaves the text behind it, whatever that is. -/
theorem append_inj (left : Spells c one) (right : Spells d other)
    (same : one ++ text = other ++ rest) : c = d ∧ text = rest := by
  cases left with
  | named listed =>
      cases right with
      | named otherListed =>
          simp only [List.cons_append, List.nil_append, List.cons.injEq, true_and] at same
          exact ⟨name_inj _ listed _ otherListed same.1, same.2⟩
      | plain _ noEscape => exact absurd (List.cons.inj same).1.symm noEscape
      | code =>
          simp only [codePoint, List.cons_append, List.nil_append, List.cons.injEq, true_and]
            at same
          exact absurd same.1 (name_ne_code _ listed)
  | plain _ noEscape =>
      cases right with
      | named => exact absurd (List.cons.inj same).1 noEscape
      | plain => exact List.cons.inj same
      | code => exact absurd (List.cons.inj same).1 noEscape
  | code =>
      cases right with
      | named listed =>
          simp only [codePoint, List.cons_append, List.nil_append, List.cons.injEq, true_and]
            at same
          exact absurd same.1.symm (name_ne_code _ listed)
      | plain _ noEscape => exact absurd (List.cons.inj same).1.symm noEscape
      | code =>
          simp only [codePoint, List.append_assoc, List.cons_append, List.nil_append,
            List.cons.injEq, true_and] at same
          -- the closing brace is no digit, so the digits before it are those of the code point
          have brace : isNumeral (Char.ofNat 0x7d) = false := by decide
          obtain ⟨numbers, after⟩ := toDigits_append_inj (by decide) (by decide)
            (stops_cons brace) (stops_cons brace) same
          exact ⟨Char.toNat_inj.mp numbers, (List.cons.inj after).2⟩

/-- No character of a string begins as the end of the string does. -/
theorem append_ne_quote (spells : Spells c one) : one ++ text ≠ '\'' :: rest := by
  cases spells with
  | named | code =>
      intro same
      exact absurd (List.cons.inj same).1 (by decide)
  | plain noQuote => exact fun same => noQuote (List.cons.inj same).1

end Spells

theorem escaped_append_inj {left right text rest : List Char}
    (same : left.flatMap escape ++ '\'' :: text = right.flatMap escape ++ '\'' :: rest) :
    left = right ∧ text = rest := by
  induction left generalizing right with
  | nil =>
      cases right with
      | nil => exact ⟨rfl, (List.cons.inj same).2⟩
      | cons d right =>
          rw [List.flatMap_cons, List.append_assoc] at same
          exact absurd same.symm (spells_escape d).append_ne_quote
  | cons c left ih =>
      rw [List.flatMap_cons, List.append_assoc] at same
      cases right with
      | nil => exact absurd same (spells_escape c).append_ne_quote
      | cons d right =>
          rw [List.flatMap_cons, List.append_assoc] at same
          obtain ⟨rfl, later⟩ := (spells_escape c).append_inj (spells_escape d) same
          obtain ⟨rfl, after⟩ := ih later
          exact ⟨rfl, after⟩

/-- A quoted string tells where it ends, and which string it is. -/
theorem write_append_inj {left right : String} {text rest : List Char}
    (same : write left ++ text = write right ++ rest) : left = right ∧ text = rest := by
  simp only [write, List.cons_append, List.append_assoc, List.nil_append, List.cons.injEq,
    true_and] at same
  obtain ⟨characters, after⟩ := escaped_append_inj same
  exact ⟨String.toList_inj.mp characters, after⟩

end Quoted

/-! ## Literals -/

/-- Values that are their contents and can be written down: no floating point number, no
object, and nothing else that is known by an identity. -/
inductive Value.IsLiteral : Value → Prop where
  | none : IsLiteral .none
  | bool (b : Bool) : IsLiteral (.bool b)
  | int (n : Int64) : IsLiteral (.int n)
  | str (text : String) : IsLiteral (.str text)
  | tuple {items : List Value} (each : ∀ item ∈ items, IsLiteral item) : IsLiteral (.tuple items)

namespace Rendering

section Texts

variable (names : TypeNames) (heap : Heap)

/-- The characters in which a value is written. -/
def chars (v : Value) : List Char := (write names heap v).getD []

theorem chars_bool (b : Bool) :
    chars names heap (.bool b) = if b then ['T', 'r', 'u', 'e'] else ['F', 'a', 'l', 's', 'e'] := by
  cases b <;> rfl

theorem chars_int (n : Int64) : chars names heap (.int n) = NumberText.ofInt n.toInt := rfl

theorem chars_str (text : String) : chars names heap (.str text) = Quoted.write text := rfl

theorem chars_tuple (items : List Value) :
    chars names heap (.tuple items) =
      '(' :: ([',', ' '].intercalate (items.map (chars names heap)) ++
        (tupleEnd items.length).flatten) := by
  obtain ⟨drawings, drawn, rfl⟩ :=
    Drawing.exists_map_eq items fun item _ => Drawing.exists_drawn heap [] item
  have each : (drawings.map Drawing.shown).map (chars names heap) =
      drawings.map (Drawing.text names) := by
    rw [List.map_map]
    refine List.map_congr_left fun drawing member => ?_
    rw [Function.comp, chars, (drawn drawing member).write_eq, Option.getD_some]
  rw [each, List.length_map, ← Drawing.text_tuple, chars, ← Drawing.shown_tuple,
    (Drawing.Drawn.tuple drawn).write_eq, Option.getD_some]

/-- What stands behind an item, before the items that are still to come. -/
def behind : List Value → List Char
  | [] => [')']
  | item :: rest => ',' :: ' ' :: (chars names heap item ++ behind rest)

/-- What stands behind the first item, which has a comma behind it in any case. -/
def behindFirst : List Value → List Char
  | [] => [',', ')']
  | second :: rest => behind names heap (second :: rest)

theorem intercalate_behind (first : Value) (rest : List Value) :
    [',', ' '].intercalate ((first :: rest).map (chars names heap)) ++ [')'] =
      chars names heap first ++ behind names heap rest := by
  induction rest generalizing first with
  | nil => simp [List.intercalate, behind]
  | cons second rest ih =>
      rw [behind, ← ih second]
      simp [List.intercalate]

theorem chars_tuple_cons (first : Value) (rest : List Value) :
    chars names heap (.tuple (first :: rest)) =
      '(' :: (chars names heap first ++ behindFirst names heap rest) := by
  rw [chars_tuple]
  cases rest with
  | nil => simp [List.intercalate, tupleEnd, behindFirst]
  | cons second rest =>
      rw [behindFirst, ← intercalate_behind names heap first (second :: rest)]
      rfl

end Texts

/-! ## First characters -/

/-- The type of the literals that begin with this character, if any do. -/
def typeOfFirst (c : Char) : Option TypeId :=
  if c = 'N' then some .none
  else if c = 'T' ∨ c = 'F' then some .bool
  else if c = '\'' then some .str
  else if c = '(' then some .tuple
  else if c = '-' ∨ isNumeral c then some .int
  else none

theorem typeOfFirst_of_isNumeral {c : Char} (numeral : isNumeral c = true) :
    typeOfFirst c = some .int := by
  have apart (d : Char) (other : isNumeral d = false) : c ≠ d := by
    rintro rfl
    rw [numeral] at other
    cases other
  have noTruth : ¬(c = 'T' ∨ c = 'F') := not_or.mpr ⟨apart 'T' rfl, apart 'F' rfl⟩
  rw [typeOfFirst, if_neg (apart 'N' rfl), if_neg noTruth, if_neg (apart '\'' rfl),
    if_neg (apart '(' rfl), if_pos (.inr numeral)]

/-- A literal begins with a character that tells its type. -/
theorem exists_first {v : Value} (literal : v.IsLiteral) (names : TypeNames) (heap : Heap) :
    ∃ c text, chars names heap v = c :: text ∧ typeOfFirst c = some v.typeOf := by
  cases literal with
  | none => exact ⟨_, _, rfl, rfl⟩
  | bool b => cases b <;> exact ⟨_, _, rfl, rfl⟩
  | int n =>
      obtain ⟨c, text, written, sign | numeral⟩ := NumberText.exists_ofInt_eq_cons n.toInt
      · exact ⟨c, text, written, sign ▸ rfl⟩
      · exact ⟨c, text, written, typeOfFirst_of_isNumeral numeral⟩
  | str text => exact ⟨_, _, rfl, rfl⟩
  | @tuple items each => exact ⟨_, _, chars_tuple names heap items, rfl⟩

section Comparison

variable {names others : TypeNames} {heap another : Heap} {left right : Value}
  {text rest : List Char}

theorem typeOf_eq (literal : left.IsLiteral) (otherLiteral : right.IsLiteral)
    (same : chars names heap left ++ text = chars others another right ++ rest) :
    left.typeOf = right.typeOf := by
  obtain ⟨c, _, written, type⟩ := exists_first literal names heap
  obtain ⟨d, _, otherWritten, otherType⟩ := exists_first otherLiteral others another
  rw [written, otherWritten] at same
  obtain rfl := (List.cons.inj same).1
  exact Option.some.inj (type.symm.trans otherType)

theorem chars_append_ne_parenthesis (literal : left.IsLiteral) :
    chars names heap left ++ text ≠ ')' :: rest := by
  obtain ⟨c, _, written, type⟩ := exists_first literal names heap
  rw [written]
  rintro ⟨⟩
  cases type

/-- In front of text that does not go on with a digit, the text of the value tells the value
from all literals. -/
def Told (names others : TypeNames) (heap another : Heap) (v : Value) : Prop :=
  ∀ right text rest, right.IsLiteral → Stops text → Stops rest →
    chars names heap v ++ text = chars others another right ++ rest → v = right ∧ text = rest

theorem stops_behind (items : List Value) (text : List Char) :
    Stops (behind names heap items ++ text) := by
  cases items with
  | nil => exact stops_cons (by decide)
  | cons item items => exact stops_cons (by decide)

theorem stops_behindFirst (items : List Value) (text : List Char) :
    Stops (behindFirst names heap items ++ text) := by
  cases items with
  | nil => exact stops_cons (by decide)
  | cons item items => exact stops_behind (item :: items) text

/-- Comma and parenthesis tell where the items end, if each of them is told. -/
theorem behind_append_inj {items right : List Value}
    (told : ∀ item ∈ items, Told names others heap another item)
    (literals : ∀ item ∈ right, item.IsLiteral)
    (same : behind names heap items ++ text = behind others another right ++ rest) :
    items = right ∧ text = rest := by
  induction items generalizing right with
  | nil =>
      cases right with
      | nil => exact ⟨rfl, (List.cons.inj same).2⟩
      | cons item right => cases (List.cons.inj same).1
  | cons item items ih =>
      cases right with
      | nil => cases (List.cons.inj same).1
      | cons other right =>
          obtain ⟨firstTold, restTold⟩ := List.forall_mem_cons.mp told
          obtain ⟨firstLiteral, restLiterals⟩ := List.forall_mem_cons.mp literals
          simp only [behind, List.cons_append, List.append_assoc, List.cons.injEq, true_and] at same
          obtain ⟨rfl, later⟩ := firstTold other _ _ firstLiteral (stops_behind items text)
            (stops_behind right rest) same
          obtain ⟨rfl, after⟩ := ih restTold restLiterals later
          exact ⟨rfl, after⟩

theorem behindFirst_append_inj {items right : List Value}
    (told : ∀ item ∈ items, Told names others heap another item)
    (literals : ∀ item ∈ right, item.IsLiteral)
    (same : behindFirst names heap items ++ text = behindFirst others another right ++ rest) :
    items = right ∧ text = rest := by
  cases items with
  | nil =>
      cases right with
      | nil => exact ⟨rfl, List.append_cancel_left same⟩
      | cons item right => cases (List.cons.inj (List.cons.inj same).2).1
  | cons item items =>
      cases right with
      | nil => cases (List.cons.inj (List.cons.inj same).2).1
      | cons other right => exact behind_append_inj told literals same

theorem told_bool (b : Bool) : Told names others heap another (.bool b) := by
  intro right text rest literal _ _ same
  have type := typeOf_eq (.bool b) literal same
  cases literal with
  | bool d =>
      simp only [chars_bool] at same
      cases b with
      | true =>
          cases d with
          | true => exact ⟨rfl, List.append_cancel_left same⟩
          | false => cases (List.cons.inj same).1
      | false =>
          cases d with
          | true => cases (List.cons.inj same).1
          | false => exact ⟨rfl, List.append_cancel_left same⟩
  | _ => cases type

theorem told_tuple {items : List Value} (literals : ∀ item ∈ items, item.IsLiteral)
    (told : ∀ item ∈ items, Told names others heap another item) :
    Told names others heap another (.tuple items) := by
  intro right text rest literal _ _ same
  have type := typeOf_eq (.tuple literals) literal same
  cases literal with
  | @tuple right otherLiterals =>
      cases items with
      | nil =>
          cases right with
          | nil => exact ⟨rfl, List.append_cancel_left same⟩
          | cons second right =>
              -- only the empty tuple closes at once
              rw [chars_tuple_cons, List.cons_append, List.append_assoc] at same
              exact absurd (List.cons.inj same).2.symm
                (chars_append_ne_parenthesis (otherLiterals second List.mem_cons_self))
      | cons first items =>
          rw [chars_tuple_cons, List.cons_append, List.append_assoc] at same
          cases right with
          | nil =>
              exact absurd (List.cons.inj same).2
                (chars_append_ne_parenthesis (literals first List.mem_cons_self))
          | cons second right =>
              rw [chars_tuple_cons, List.cons_append, List.append_assoc] at same
              obtain ⟨firstTold, restTold⟩ := List.forall_mem_cons.mp told
              obtain ⟨firstLiteral, restLiterals⟩ := List.forall_mem_cons.mp otherLiterals
              obtain ⟨rfl, later⟩ := firstTold second _ _ firstLiteral
                (stops_behindFirst items text) (stops_behindFirst right rest)
                (List.cons.inj same).2
              obtain ⟨rfl, after⟩ := behindFirst_append_inj restTold restLiterals later
              exact ⟨rfl, after⟩
  | _ => cases type

/-- Every literal is told from all others. -/
theorem told_of_isLiteral (literal : left.IsLiteral) : Told names others heap another left := by
  -- The first character leaves only literals of one type to compare with.
  induction literal with
  | none =>
      intro right text rest literal _ _ same
      have type := typeOf_eq .none literal same
      cases literal with
      | none => exact ⟨rfl, List.append_cancel_left same⟩
      | _ => cases type
  | bool b => exact told_bool b
  | int n =>
      intro right text rest literal stops restStops same
      have type := typeOf_eq (.int n) literal same
      cases literal with
      | int m =>
          rw [chars_int, chars_int] at same
          obtain ⟨equal, after⟩ := NumberText.ofInt_append_inj stops restStops same
          exact ⟨congrArg Value.int (Int64.toInt_inj.mp equal), after⟩
      | _ => cases type
  | str content =>
      intro right text rest literal _ _ same
      have type := typeOf_eq (.str content) literal same
      cases literal with
      | str other =>
          rw [chars_str, chars_str] at same
          obtain ⟨equal, after⟩ := Quoted.write_append_inj same
          exact ⟨congrArg Value.str equal, after⟩
      | _ => cases type
  | tuple literals ih => exact told_tuple literals ih

/-- A literal is written in the same way whatever types are called and whatever the heap holds. -/
theorem chars_congr (literal : left.IsLiteral) :
    chars names heap left = chars others another left := by
  induction literal with
  | bool b => rw [chars_bool, chars_bool]
  | tuple _ ih => rw [chars_tuple, chars_tuple, List.map_congr_left ih]
  | _ => rfl

end Comparison

end Rendering

/--
Two values that are built from the unit, truth values, integers, strings and tuples have the
same text exactly if they are the same value, whatever names the types have and whatever is
in the heaps.
-/
theorem repr_eq_iff_of_literals {left right : Value} (literal : left.IsLiteral)
    (otherLiteral : right.IsLiteral) (names others : TypeNames) (heap another : Heap) :
    left.repr names heap = right.repr others another ↔ left = right := by
  constructor
  · intro same
    have characters : Rendering.chars names heap left ++ [] =
        Rendering.chars others another right ++ [] := by
      rw [List.append_nil, List.append_nil]
      exact String.ofList_injective same
    exact (Rendering.told_of_isLiteral literal right [] [] otherLiteral stops_nil stops_nil
      characters).1
  · rintro rfl
    exact congrArg String.ofList (Rendering.chars_congr literal)

/-- A string with quotes and a comma in it does not look like two, nor an integer like a truth
value. -/
theorem repr_eq_iff_of_literals_quotes :
    (Value.tuple [.str "a', 'b"]).repr TypeId.builtinName {} ≠
        (Value.tuple [.str "a", .str "b"]).repr TypeId.builtinName {} ∧
      (Value.tuple [.int 1]).repr TypeId.builtinName {} ≠
        (Value.tuple [.bool true]).repr TypeId.builtinName {} := by
  have quotes : (Value.tuple [.str "a', 'b"]).IsLiteral := .tuple (by simp [Value.IsLiteral.str])
  have two : (Value.tuple [.str "a", .str "b"]).IsLiteral := .tuple (by simp [Value.IsLiteral.str])
  have one : (Value.tuple [.int 1]).IsLiteral := .tuple (by simp [Value.IsLiteral.int])
  have truth : (Value.tuple [.bool true]).IsLiteral := .tuple (by simp [Value.IsLiteral.bool])
  constructor
  · rw [ne_eq, repr_eq_iff_of_literals quotes two]
    simp
  · rw [ne_eq, repr_eq_iff_of_literals one truth]
    simp

end ScriptCore
