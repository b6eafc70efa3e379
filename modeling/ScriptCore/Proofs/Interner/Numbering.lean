import Mathlib.Data.Finset.Card
import Mathlib.Data.List.Infix
import ScriptCore.Interner
import ScriptCore.Table

/-!
# Names and strings correspond

The position of a string among the known ones is its number, for as long as the
interner lives.  Interning adds strings at the end and never moves one, so a
number keeps its string and a string its number.

An interner can also be kept as two tables, a finite map from strings to numbers
beside the row of strings.  The two tables stay inverse to each other, and every
question has the answer that the row alone gives.
-/

namespace ScriptCore.Interner

variable {interner later : Interner} {text other : String} {symbol : Symbol}
  {texts : List String}

/-! ## What interning does to the row of strings -/

theorem intern_of_known (known : text ∈ interner.strings) :
    interner.intern text = (⟨interner.strings.idxOf text⟩, interner) :=
  dif_pos known

theorem intern_of_new (new : text ∉ interner.strings) :
    interner.intern text = (⟨interner.size⟩, interner.append text new) :=
  dif_neg new

theorem strings_prefix_intern (interner : Interner) (text : String) :
    interner.strings <+: (interner.intern text).2.strings := by
  by_cases known : text ∈ interner.strings
  · rw [intern_of_known known]
  · rw [intern_of_new known]
    exact List.prefix_append _ _

theorem mem_strings_intern :
    other ∈ (interner.intern text).2.strings ↔ other ∈ interner.strings ∨ other = text := by
  by_cases known : text ∈ interner.strings
  · rw [intern_of_known known]
    refine ⟨.inl, ?_⟩
    rintro (member | rfl)
    · exact member
    · exact known
  · rw [intern_of_new known]
    exact List.mem_append.trans (or_congr Iff.rfl List.mem_singleton)

theorem internAll_append (interner : Interner) (first second : List String) :
    interner.internAll (first ++ second) = (interner.internAll first).internAll second :=
  List.foldl_append

theorem internAll_cons (interner : Interner) (text : String) (texts : List String) :
    interner.internAll (text :: texts) = (interner.intern text).2.internAll texts := rfl

theorem strings_prefix_internAll (interner : Interner) (texts : List String) :
    interner.strings <+: (interner.internAll texts).strings := by
  induction texts generalizing interner with
  | nil => exact List.prefix_rfl
  | cons text rest ih => exact (strings_prefix_intern interner text).trans (ih _)

theorem mem_strings_internAll :
    other ∈ (interner.internAll texts).strings ↔ other ∈ interner.strings ∨ other ∈ texts := by
  induction texts generalizing interner with
  | nil => simp [internAll]
  | cons text rest ih => rw [internAll_cons, ih, mem_strings_intern, List.mem_cons, or_assoc]

theorem mem_strings_fresh : text ∈ fresh.strings ↔ text = "" ∨ text ∈ wellKnown := by
  rw [fresh, mem_strings_internAll, blank, List.mem_singleton]

/-! ## Numbers and their strings -/

/-- The string stands at the place of the number. -/
def Numbers (interner : Interner) (symbol : Symbol) (text : String) : Prop :=
  interner.strings[symbol.index]? = some text

theorem numbers_idxOf (known : text ∈ interner.strings) :
    interner.Numbers ⟨interner.strings.idxOf text⟩ text := by
  have inside := List.idxOf_lt_length_of_mem known
  exact (List.getElem?_eq_getElem inside).trans (congrArg some (List.getElem_idxOf inside))

theorem Numbers.mono (numbers : interner.Numbers symbol text)
    (grown : interner.strings <+: later.strings) : later.Numbers symbol text := by
  obtain ⟨inside, _⟩ := List.getElem?_eq_some_iff.mp numbers
  obtain ⟨added, same⟩ := grown
  rw [Numbers, ← same, List.getElem?_append_left inside]
  exact numbers

/-- No string has two numbers. -/
theorem Numbers.unique {first second : Symbol} (left : interner.Numbers first text)
    (right : interner.Numbers second text) : first = second := by
  obtain ⟨inside, found⟩ := List.getElem?_eq_some_iff.mp left
  obtain ⟨within, also⟩ := List.getElem?_eq_some_iff.mp right
  have same : first.index = second.index :=
    interner.strings_nodup.getElem_inj_iff.mp (found.trans also.symm)
  exact congrArg Symbol.mk same

theorem numbers_intern (interner : Interner) (text : String) :
    (interner.intern text).2.Numbers (interner.intern text).1 text := by
  by_cases known : text ∈ interner.strings
  · rw [intern_of_known known]
    exact numbers_idxOf known
  · rw [intern_of_new known]
    exact List.getElem?_concat_length

theorem Numbers.lookup_eq (numbers : interner.Numbers symbol text) :
    interner.lookup symbol = text := by
  rw [lookup, List.getD_eq_getElem?_getD, numbers, Option.getD_some]

theorem get?_eq_some_iff : interner.get? text = some symbol ↔ interner.Numbers symbol text := by
  by_cases known : text ∈ interner.strings
  · rw [get?, if_pos known, Option.some_inj]
    refine ⟨fun same => same ▸ numbers_idxOf known, (numbers_idxOf known).unique⟩
  · rw [get?, if_neg known]
    exact ⟨nofun, fun numbers => absurd (List.mem_of_getElem? numbers) known⟩

theorem isSome_get?_iff : (interner.get? text).isSome = true ↔ text ∈ interner.strings := by
  by_cases known : text ∈ interner.strings <;> simp [get?, known]

/-- Interning a known string gives the number it has and changes nothing. -/
theorem intern_of_get? (found : interner.get? text = some symbol) :
    interner.intern text = (symbol, interner) := by
  have numbers := get?_eq_some_iff.mp found
  have known := List.mem_of_getElem? numbers
  rw [intern_of_known known, (numbers_idxOf known).unique numbers]

/-- A number without a string stands for the empty one. -/
theorem lookup_of_unused (unused : ∀ text, interner.get? text ≠ some symbol) :
    interner.lookup symbol = "" := by
  cases found : interner.strings[symbol.index]? with
  | none => rw [lookup, List.getD_eq_getElem?_getD, found, Option.getD_none]
  | some text => exact absurd (get?_eq_some_iff.mpr found) (unused text)

/-- There are as many numbers as different strings. -/
theorem size_eq_card {known : List String}
    (same : ∀ text, text ∈ interner.strings ↔ text ∈ known) :
    interner.size = known.toFinset.card := by
  have strings : interner.strings.toFinset = known.toFinset := by
    ext text
    rw [List.mem_toFinset, List.mem_toFinset, same]
  rw [size, ← List.toFinset_card_of_nodup interner.strings_nodup, strings]

theorem size_mono (grown : interner.strings <+: later.strings) :
    interner.size ≤ later.size :=
  grown.length_le

theorem index_lt_size (numbers : interner.Numbers symbol text) :
    symbol.index < interner.size :=
  (List.getElem?_eq_some_iff.mp numbers).1

/-- The new string has the last place, and all others keep theirs. -/
theorem get?_append (new : text ∉ interner.strings) (asked : String) :
    (interner.append text new).get? asked =
      if text = asked then some ⟨interner.size⟩ else interner.get? asked := by
  by_cases same : text = asked
  · subst same
    rw [if_pos rfl, get?_eq_some_iff]
    exact List.getElem?_concat_length
  · rw [if_neg same]
    cases found : interner.get? asked with
    | none =>
        have absent : asked ∉ interner.strings := by
          rw [← isSome_get?_iff, found]
          exact nofun
        refine if_neg fun member => (List.mem_append.mp member).elim absent fun last => ?_
        exact same (List.mem_singleton.mp last).symm
    | some symbol =>
        have numbers := get?_eq_some_iff.mp found
        exact get?_eq_some_iff.mpr (numbers.mono (List.prefix_append interner.strings [text]))

/-- A string is accepted if there is room for it afterwards. -/
theorem intern?_of_room (room : (interner.intern text).2.size ≤ capacity) :
    interner.intern? text = .ok (interner.intern text) := by
  refine if_pos ?_
  by_cases known : text ∈ interner.strings
  · exact .inl known
  · rw [intern_of_new known, size, append, List.length_append, List.length_singleton] at room
    exact .inr room

/-! ## Two tables -/

/-- An interner kept as a finite map from strings to numbers beside the row of strings. -/
structure Tables where
  numbers : Table String Nat
  strings : List String

namespace Tables

/-- The tables that know the empty string only. -/
def blank : Tables := ⟨(∅ : Table String Nat).set "" 0, [""]⟩

def get? (tables : Tables) (text : String) : Option Symbol :=
  (tables.numbers.get? text).map Symbol.mk

def lookup (tables : Tables) (symbol : Symbol) : String := tables.strings.getD symbol.index ""

def size (tables : Tables) : Nat := tables.strings.length

/-- The number in the map, or else the next one, which is entered into both tables. -/
def intern? (tables : Tables) (text : String) : Except Overflow (Symbol × Tables) :=
  match tables.numbers.get? text with
  | some number => .ok (⟨number⟩, tables)
  | none =>
      if tables.size < capacity then
        .ok (⟨tables.size⟩, ⟨tables.numbers.set text tables.size, tables.strings ++ [text]⟩)
      else .error ⟨tables.size⟩

/-- Intern several strings, in order, while there is room. -/
def internAll? (tables : Tables) : List String → Except Overflow Tables
  | [] => .ok tables
  | text :: rest =>
      match tables.intern? text with
      | .ok (_, tables) => tables.internAll? rest
      | .error overflow => .error overflow

/-- The tables an interner starts from. -/
def fresh? : Except Overflow Tables := blank.internAll? wellKnown

/-- The row is that of the interner, and the map is its inverse. -/
structure Represents (tables : Tables) (interner : Interner) : Prop where
  strings : tables.strings = interner.strings
  numbers : ∀ text, tables.get? text = interner.get? text

variable {tables : Tables}

theorem represents_blank : blank.Represents Interner.blank where
  strings := rfl
  numbers text := by
    rw [get?, blank, Table.get?_set]
    by_cases empty : "" = text
    · subst empty
      rfl
    · have unknown : text ∉ Interner.blank.strings := fun member =>
        empty (List.mem_singleton.mp member).symm
      rw [if_neg empty, Interner.get?, if_neg unknown]
      rfl

namespace Represents

theorem lookup_eq (represents : tables.Represents interner) (symbol : Symbol) :
    tables.lookup symbol = interner.lookup symbol := by
  rw [Tables.lookup, represents.strings, Interner.lookup]

theorem size_eq (represents : tables.Represents interner) : tables.size = interner.size := by
  rw [Tables.size, represents.strings, Interner.size]

/-- Both give the same number, and the tables stay inverse to each other. -/
theorem intern (represents : tables.Represents interner)
    (room : (interner.intern text).2.size ≤ capacity) :
    ∃ next, tables.intern? text = .ok ((interner.intern text).1, next) ∧
      next.Represents (interner.intern text).2 := by
  have same := represents.numbers text
  by_cases known : text ∈ interner.strings
  · rw [get?, Interner.get?, if_pos known, Option.map_eq_some_iff] at same
    obtain ⟨number, found, numbered⟩ := same
    rw [intern_of_known known, ← numbered]
    exact ⟨tables, by rw [intern?, found], represents⟩
  · rw [get?, Interner.get?, if_neg known, Option.map_eq_none_iff] at same
    rw [intern_of_new known] at room ⊢
    have fits : interner.size < capacity := by
      rw [Interner.size, append, List.length_append, List.length_singleton] at room
      exact room
    refine ⟨⟨tables.numbers.set text tables.size, tables.strings ++ [text]⟩, ?_, ?_, ?_⟩
    · simp only [intern?, same, represents.size_eq, fits, if_true]
    · exact congrArg (· ++ [text]) represents.strings
    · intro asked
      rw [get?_append, get?, Table.get?_set, represents.size_eq]
      split
      · rfl
      · exact represents.numbers asked

theorem internAll (represents : tables.Represents interner)
    (room : (interner.internAll texts).size ≤ capacity) :
    ∃ next, tables.internAll? texts = .ok next ∧ next.Represents (interner.internAll texts) := by
  induction texts generalizing tables interner with
  | nil => exact ⟨tables, rfl, represents⟩
  | cons text rest ih =>
      rw [internAll_cons] at room ⊢
      have early := Nat.le_trans (size_mono (strings_prefix_internAll _ rest)) room
      obtain ⟨middle, interned, after⟩ := represents.intern early
      obtain ⟨next, all, last⟩ := ih after room
      exact ⟨next, by rw [internAll?, interned]; exact all, last⟩

end Represents

end Tables

/-! ## The correspondence -/

/-- What interning the texts, in order, has made of a fresh interner. -/
structure Numbering (texts : List String) (interner : Interner) : Prop where
  /-- Two texts interned one after the other have the same number exactly if they are the same. -/
  injective : ∀ earlier first middle second later,
    texts = earlier ++ first :: (middle ++ second :: later) →
      (((fresh.internAll earlier).intern first).1 =
        ((fresh.internAll (earlier ++ first :: middle)).intern second).1 ↔ first = second)
  /-- A text has room, its number fits, and both stand for each other at once and at the end. -/
  given : ∀ earlier text later symbol next, texts = earlier ++ text :: later →
    (fresh.internAll earlier).intern text = (symbol, next) →
      (fresh.internAll earlier).intern? text = .ok (symbol, next) ∧ symbol.index < capacity ∧
        next.lookup symbol = text ∧ interner.lookup symbol = text ∧
        next.get? text = some symbol ∧ interner.get? text = some symbol
  /-- No other texts are known than those interned and those known from the start. -/
  known : ∀ text, (interner.get? text).isSome = true ↔ text = "" ∨ text ∈ wellKnown ∨ text ∈ texts
  /-- A known text keeps its number, and interning it again changes nothing. -/
  again : ∀ text symbol, interner.get? text = some symbol →
    interner.intern text = (symbol, interner) ∧ interner.lookup symbol = text
  size : interner.size = ("" :: wellKnown ++ texts).toFinset.card
  unused : ∀ symbol, (∀ text, interner.get? text ≠ some symbol) → interner.lookup symbol = ""

/-- Whatever has been interned since, a number given out is the one the text still has. -/
theorem numbers_internAll (earlier : List String) (text : String) (later : List String) :
    (fresh.internAll (earlier ++ text :: later)).Numbers
      ((fresh.internAll earlier).intern text).1 text := by
  rw [internAll_append, internAll_cons]
  exact (numbers_intern _ text).mono (strings_prefix_internAll _ later)

theorem size_internAll_le (earlier later : List String) :
    (fresh.internAll earlier).size ≤ (fresh.internAll (earlier ++ later)).size := by
  rw [internAll_append]
  exact size_mono (strings_prefix_internAll _ later)

theorem numbering_internAll {texts : List String}
    (room : (fresh.internAll texts).size ≤ capacity) :
    Numbering texts (fresh.internAll texts) := by
  refine ⟨?_, ?_, ?_, ?_, ?_, fun _ => lookup_of_unused⟩
  · rintro earlier first middle second later rfl
    have left := numbers_internAll earlier first (middle ++ second :: later)
    have right := numbers_internAll (earlier ++ first :: middle) second later
    rw [List.append_assoc, List.cons_append] at right
    refine ⟨fun same => ?_, fun same => ?_⟩
    · rw [← left.lookup_eq, same, right.lookup_eq]
    · subst same
      exact left.unique right
  · rintro earlier text later symbol next rfl interned
    have early := numbers_intern (fresh.internAll earlier) text
    have late := numbers_internAll earlier text later
    have grown := size_internAll_le (earlier ++ [text]) later
    rw [List.append_assoc, List.singleton_append, internAll_append _ earlier [text]] at grown
    have accepted : (fresh.internAll earlier).intern? text = _ :=
      intern?_of_room (Nat.le_trans grown room)
    rw [interned] at early late accepted
    exact ⟨accepted, Nat.lt_of_lt_of_le (index_lt_size late) room, early.lookup_eq,
      late.lookup_eq, get?_eq_some_iff.mpr early, get?_eq_some_iff.mpr late⟩
  · intro text
    rw [isSome_get?_iff, mem_strings_internAll, mem_strings_fresh, or_assoc]
  · intro text symbol found
    exact ⟨intern_of_get? found, (get?_eq_some_iff.mp found).lookup_eq⟩
  · refine size_eq_card fun text => ?_
    rw [mem_strings_internAll, mem_strings_fresh, List.mem_append, List.mem_cons]

/--
Names and strings correspond one to one for the whole life of an interner.  This
holds also if it is kept as two tables: they never overflow, give the same
numbers and stay inverse to each other.
-/
theorem names_and_strings_correspond {texts : List String}
    (room : (fresh.internAll texts).size ≤ capacity) :
    Numbering texts (fresh.internAll texts) ∧
      ∃ start, Tables.fresh? = .ok start ∧
        ∀ earlier later, texts = earlier ++ later →
          ∃ tables, start.internAll? earlier = .ok tables ∧
            tables.Represents (fresh.internAll earlier) ∧
            ∀ text rest, later = text :: rest →
              ∃ next,
                tables.intern? text = .ok (((fresh.internAll earlier).intern text).1, next) := by
  have initial := Nat.le_trans (size_mono (strings_prefix_internAll fresh texts)) room
  rw [fresh] at initial
  obtain ⟨start, begun, represents⟩ := Tables.represents_blank.internAll initial
  rw [← fresh] at represents
  refine ⟨numbering_internAll room, start, begun, ?_⟩
  rintro earlier later rfl
  obtain ⟨tables, interned, same⟩ :=
    represents.internAll (Nat.le_trans (size_internAll_le earlier later) room)
  refine ⟨tables, interned, same, ?_⟩
  rintro text rest rfl
  have grown := size_internAll_le (earlier ++ [text]) rest
  rw [List.append_assoc, List.singleton_append, internAll_append _ earlier [text]] at grown
  obtain ⟨next, given, _⟩ := same.intern (Nat.le_trans grown room)
  exact ⟨next, given⟩

/-- A new string, a well-known one, and the new one again. -/
theorem names_and_strings_correspond_again :
    (fresh.internAll ["alpha", "__len__", "alpha"]).size ≤ capacity ∧
      (fresh.internAll ["alpha", "__len__", "alpha"]).get? "alpha" = some ⟨25⟩ ∧
      (fresh.internAll ["alpha", "__len__", "alpha"]).lookup ⟨25⟩ = "alpha" ∧
      (fresh.internAll ["alpha", "__len__", "alpha"]).lookup ⟨26⟩ = "" := by
  have room : (fresh.internAll ["alpha", "__len__", "alpha"]).size ≤ capacity := by decide +kernel
  obtain ⟨numbering, _⟩ := names_and_strings_correspond room
  have numbered : (fresh.internAll ["alpha", "__len__", "alpha"]).get? "alpha" = some ⟨25⟩ := by
    decide +kernel
  refine ⟨room, numbered, (numbering.again _ _ numbered).2, numbering.unused _ ?_⟩
  intro text found
  have inside := index_lt_size (get?_eq_some_iff.mp found)
  exact absurd inside (by decide +kernel)

end ScriptCore.Interner
