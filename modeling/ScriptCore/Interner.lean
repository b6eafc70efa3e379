/-!
# Numbered strings

An interner numbers strings in the order in which it first meets them.  It
starts with the empty string, which has number zero, and the names the type
protocol and the built-in types use.
-/

namespace ScriptCore

/-- The number an interner gave to a string. -/
structure Symbol where
  index : Nat
deriving DecidableEq, Repr

namespace Symbol

/-- Diagnostic text of a symbol. -/
def diagnostic (symbol : Symbol) : String := s!"Name({symbol.index})"

end Symbol

/-- The strings known so far; the position of a string is its number. -/
structure Interner where
  strings : List String
  strings_nodup : strings.Nodup
  empty_first : strings.head? = some ""

namespace Interner

/-- The interner that knows the empty string only. -/
def blank : Interner := ⟨[""], by simp, rfl⟩

/-- The number of `text`, if it is known. -/
def get? (interner : Interner) (text : String) : Option Symbol :=
  if text ∈ interner.strings then some ⟨interner.strings.idxOf text⟩ else none

/-- The string numbered `symbol`; a number never given out stands for the empty string. -/
def lookup (interner : Interner) (symbol : Symbol) : String :=
  interner.strings.getD symbol.index ""

/-- How many strings are known. -/
def size (interner : Interner) : Nat := interner.strings.length

/-- Whether no string but the empty one is known. -/
def isEmpty (interner : Interner) : Bool := interner.size ≤ 1

/-- Add a string that is not known yet. -/
def append (interner : Interner) (text : String) (unknown : text ∉ interner.strings) :
    Interner where
  strings := interner.strings ++ [text]
  strings_nodup := by
    refine List.nodup_append.2 ⟨interner.strings_nodup, by simp, ?_⟩
    rintro known member other same rfl
    exact unknown (List.mem_singleton.1 same ▸ member)
  empty_first := by
    have first := interner.empty_first
    cases shape : interner.strings with
    | nil => simp [shape] at first
    | cons head rest => simpa [shape] using first

/-- The number of `text`, given out now if it is new. -/
def intern (interner : Interner) (text : String) : Symbol × Interner :=
  if known : text ∈ interner.strings then (⟨interner.strings.idxOf text⟩, interner)
  else (⟨interner.size⟩, interner.append text known)

/-- Intern several strings, in order. -/
def internAll (interner : Interner) (texts : List String) : Interner :=
  texts.foldl (fun current text => (current.intern text).2) interner

/-! ## Capacity -/

/-- Numbers are below this bound, so that they fit thirty-two bits. -/
def capacity : Nat := 4294967296

/-- A refused string: the interner already held `count` strings. -/
structure Overflow where
  count : Nat
deriving DecidableEq, Repr

/-- The text that reports a refused string. -/
def Overflow.message (overflow : Overflow) : String :=
  s!"interner exceeded capacity: {overflow.count} strings, max is 4294967295"

/-- Intern `text` unless that takes a number beyond the capacity. -/
def intern? (interner : Interner) (text : String) : Except Overflow (Symbol × Interner) :=
  if text ∈ interner.strings ∨ interner.size < capacity then .ok (interner.intern text)
  else .error ⟨interner.size⟩

/-! ## Starting vocabulary -/

/-- The names every interner starts with, after the empty string. -/
def wellKnown : List String :=
  ["__base__", "__name__", "__doc__", "__init__", "__new__", "__class__",
   "__add__", "__sub__", "__mul__", "__eq__", "__neg__",
   "__getitem__", "__setitem__", "__contains__", "__len__",
   "object", "type", "int", "float", "bool", "str", "tuple", "list", "dict"]

/-- The interner a host starts from. -/
def fresh : Interner := blank.internAll wellKnown

/-- Diagnostic text of an interner. -/
def diagnostic (interner : Interner) : String :=
  s!"StringInterner \x7b len: {interner.size} \x7d"

/-- Diagnostic text of an interner that is held by several owners. -/
def sharedDiagnostic (interner : Interner) : String :=
  s!"SharedInterner({interner.diagnostic})"

end Interner

end ScriptCore
