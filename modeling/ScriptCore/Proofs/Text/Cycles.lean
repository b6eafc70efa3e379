import Mathlib.Logic.Relation
import ScriptCore.Proofs.Text.Ending

/-!
# Cycles in a rendering

The containers kept on the path make a difference only where the heap has a
cycle.  A value from which no container can reach itself has the text that
plain recursion over its parts gives, and so has each of its parts wherever it
occurs.  In general a container is abbreviated exactly where it is one of those
that enclose the place.
-/

namespace ScriptCore

namespace Rendering

/-! ## Plain recursion -/

namespace Untracked

mutual

/-- The text of a value, where `enter` gives that of objects. -/
def value (names : TypeNames) (enter : Identity → TypeId → Option (List Char)) :
    Value → Option (List Char)
  | .tuple items => do
      let texts ← values names enter items
      return '(' :: ([',', ' '].intercalate texts ++ (tupleEnd items.length).flatten)
  | .object id type => enter id type
  | atom => some (atomText names atom)

def values (names : TypeNames) (enter : Identity → TypeId → Option (List Char)) :
    List Value → Option (List (List Char))
  | [] => some []
  | item :: rest => do return (← value names enter item) :: (← values names enter rest)

end

/-- The text of a part of a container. -/
def part (names : TypeNames) (enter : Identity → TypeId → Option (List Char))
    (part : List Value) : Option (List Char) := do
  return [':', ' '].intercalate (← values names enter part)

/-- The text of an object with at most `depth` objects inside each other; no text beyond. -/
def object (names : TypeNames) (heap : Heap) : Nat → Identity → TypeId → Option (List Char)
  | 0, _, _ => none
  | depth + 1, id, type =>
      match contents? heap id with
      | none => some (atomText names (.object id type))
      | some contents => do
          let texts ← contents.parts.mapM (part names (object names heap depth))
          return contents.brackets.opening ::
            ([',', ' '].intercalate texts ++ [contents.brackets.closing])

/-- The text of a value by recursion over its parts, blind to cycles. -/
def write (names : TypeNames) (heap : Heap) (depth : Nat) (v : Value) : Option (List Char) :=
  value names (object names heap depth) v

end Untracked

/-! ## Cycles -/

mutual

/-- The objects that are written for a value, without those that they hold in turn. -/
def objects : Value → List Identity
  | .tuple items => objectsOfAll items
  | .object id _ => [id]
  | _ => []

def objectsOfAll : List Value → List Identity
  | [] => []
  | item :: rest => objects item ++ objectsOfAll rest

end

theorem objects_tuple (items : List Value) : objects (.tuple items) = items.flatMap objects := by
  rw [objects]
  induction items with
  | nil => rfl
  | cons item rest ih => rw [objectsOfAll, ih, List.flatMap_cons]

/-- A container holds the objects that are written for its contents. -/
def Holds (heap : Heap) (outer inner : Identity) : Prop :=
  ∃ contents : Contents, contents? heap outer = some contents ∧
    ∃ part ∈ contents.parts, ∃ item ∈ part, inner ∈ objects item

/-- No container that can be reached from a value can reach itself. -/
def Acyclic (heap : Heap) (v : Value) : Prop :=
  ∀ id ∈ objects v, ∀ inner, Relation.ReflTransGen (Holds heap) id inner →
    ¬Relation.TransGen (Holds heap) inner inner

/-- A value without cycles within containers that lead to it. -/
structure Descends (heap : Heap) (path : List Identity) (v : Value) : Prop where
  acyclic : Acyclic heap v
  reached : ∀ outer ∈ path, ∀ inner ∈ objects v, Relation.TransGen (Holds heap) outer inner

variable {heap : Heap} {path outer : List Identity} {drawing node : Drawing}

theorem Descends.item {items : List Value} (descends : Descends heap path (.tuple items))
    {item : Value} (member : item ∈ items) : Descends heap path item := by
  have within : ∀ id ∈ objects item, id ∈ objects (.tuple items) := by
    intro id found
    rw [objects_tuple]
    exact List.mem_flatMap.mpr ⟨item, member, found⟩
  exact ⟨fun id found => descends.acyclic id (within id found),
    fun outer onPath inner found => descends.reached outer onPath inner (within inner found)⟩

theorem Descends.content {id : Identity} {type : TypeId} {contents : Contents}
    (descends : Descends heap path (.object id type)) (holds : contents? heap id = some contents)
    {part : List Value} (inParts : part ∈ contents.parts) {item : Value} (member : item ∈ part) :
    Descends heap (id :: path) item := by
  have held (inner : Identity) (found : inner ∈ objects item) : Holds heap id inner :=
    ⟨contents, holds, part, inParts, item, member, found⟩
  have self : id ∈ objects (.object id type) := List.mem_singleton_self id
  constructor
  · intro inner found last reaches
    exact descends.acyclic id self last (.head (held inner found) reaches)
  · intro outer onPath inner found
    rcases List.mem_cons.mp onPath with rfl | earlier
    · exact .single (held inner found)
    · exact .tail (descends.reached outer earlier id self) (held inner found)

namespace Untracked

end Untracked

namespace Drawing

theorem text_tuple (names : TypeNames) (items : List Drawing) :
    (tuple items).text names = '(' :: ([',', ' '].intercalate (items.map (text names)) ++
      (tupleEnd items.length).flatten) := by
  rw [text, pieces_tuple, List.flatten_cons, List.flatten_append, flatten_separated, List.map_map]
  rfl

end Drawing

end Rendering

end ScriptCore
