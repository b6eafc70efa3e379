import ScriptCore.Text.Rendering

/-!
# Drawings

A drawing is what is written of a value: the value unfolded along the heap, as
a finite tree in which some containers are cut short.  Which drawing belongs to
a value is decided by the containers around each place.  A container within
itself is cut, every other one shows all that it holds.

There is such a drawing for every value and every heap, since each container
that is entered is one that was not visited before.
-/

namespace ScriptCore

namespace Rendering

/-! ## Containers -/

/--
What is written between the brackets of a container.  The parts are separated by
commas; the one or two values of a part by a colon.
-/
structure Contents where
  brackets : Brackets
  parts : List (List Value)

/-- The contents of a list or a mapping; a plain instance has none. -/
def contents? (heap : Heap) (id : Identity) : Option Contents :=
  match heap.payload id with
  | .plain => none
  | .mapping mapping => some ⟨.curly, mapping.entries.map fun entry => [entry.1, entry.2]⟩
  | .list items => some ⟨.square, items.map fun item => [item]⟩

/-- A value that is written without writing other values. -/
def Atomic (heap : Heap) : Value → Prop
  | .tuple _ => False
  | .object id _ => contents? heap id = none
  | _ => True

/-- How many objects of the heap are not on a path. -/
def unvisited (heap : Heap) (path : List Identity) : Nat :=
  (heap.payloads.keys.filter fun id => id ∉ path).length

/-- A depth beyond the bound suffices on every path. -/
theorem unvisited_lt {heap : Heap} {depth : Nat} (path : List Identity)
    (deep : depthBound heap ≤ depth) : unvisited heap path < depth := by
  have fewer := List.length_filter_le (fun id => decide (id ∉ path)) heap.payloads.keys
  rw [Table.keys, List.length_map] at fewer
  exact Nat.lt_of_le_of_lt fewer deep

theorem mem_keys_of_contents? {heap : Heap} {id : Identity} {contents : Contents}
    (holds : contents? heap id = some contents) : id ∈ heap.payloads.keys := by
  refine Decidable.byContradiction fun missing => ?_
  rw [contents?, Heap.payload, Table.get?_eq_none_iff.mpr missing] at holds
  cases holds

/-- Entering a container leaves fewer objects to visit. -/
theorem unvisited_cons_lt {heap : Heap} {path : List Identity} {id : Identity}
    {contents : Contents} (holds : contents? heap id = some contents) (new : id ∉ path) :
    unvisited heap (id :: path) < unvisited heap path := by
  have visits : (heap.payloads.keys.filter fun other => other ∉ id :: path) =
      (heap.payloads.keys.filter fun other => other ∉ path).filter fun other => other ≠ id := by
    rw [List.filter_filter]
    refine List.filter_congr fun other _ => ?_
    simp [not_or]
  rw [unvisited, unvisited, visits, List.length_filter_lt_length_iff_exists]
  refine ⟨id, List.mem_filter.mpr ⟨mem_keys_of_contents? holds, ?_⟩, ?_⟩
  · simpa using new
  · simp

/-! ## Drawings -/

/-- A value unfolded as far as it is written. -/
inductive Drawing where
  | atom (value : Value)
  | tuple (items : List Drawing)
  /-- A list or a mapping with its contents. -/
  | container (id : Identity) (type : TypeId) (brackets : Brackets) (parts : List (List Drawing))
  /-- A list or a mapping without its contents. -/
  | cut (id : Identity) (type : TypeId) (brackets : Brackets)

/-- Pieces of text with a separator between them. -/
def separated (separator : List Char) (parts : List (List (List Char))) : List (List Char) :=
  (parts.intersperse [separator]).flatten

theorem flatten_separated (separator : List Char) (parts : List (List (List Char))) :
    (separated separator parts).flatten = separator.intercalate (parts.map List.flatten) := by
  unfold separated List.intercalate
  induction parts with
  | nil => rfl
  | cons first rest ih =>
      cases rest with
      | nil => simp
      | cons second rest => simpa using ih

namespace Drawing

mutual

/-- The value that is drawn. -/
def shown : Drawing → Value
  | atom value => value
  | tuple items => .tuple (shownAll items)
  | container id type _ _ => .object id type
  | cut id type _ => .object id type

def shownAll : List Drawing → List Value
  | [] => []
  | item :: rest => shown item :: shownAll rest

end

theorem shownAll_eq (items : List Drawing) : shownAll items = items.map shown := by
  induction items with
  | nil => rfl
  | cons item rest ih => rw [shownAll, ih, List.map_cons]

theorem shown_tuple (items : List Drawing) : (tuple items).shown = .tuple (items.map shown) := by
  rw [shown, shownAll_eq]

mutual

/-- The text of a drawing, in the pieces in which it is written. -/
def pieces (names : TypeNames) : Drawing → List (List Char)
  | atom value => [atomText names value]
  | tuple items =>
      ['('] :: (separated [',', ' '] (piecesOfAll names items) ++ tupleEnd items.length)
  | container _ _ brackets parts =>
      [brackets.opening] :: (separated [',', ' '] (piecesOfParts names parts) ++
        [[brackets.closing]])
  | cut _ _ brackets => [brackets.abbreviation]

def piecesOfAll (names : TypeNames) : List Drawing → List (List (List Char))
  | [] => []
  | item :: rest => pieces names item :: piecesOfAll names rest

def piecesOfParts (names : TypeNames) : List (List Drawing) → List (List (List Char))
  | [] => []
  | part :: rest =>
      separated [':', ' '] (piecesOfAll names part) :: piecesOfParts names rest

end

/-- The text of a drawing. -/
def text (names : TypeNames) (drawing : Drawing) : List Char := (drawing.pieces names).flatten

/-- The pieces of a part of a container. -/
def piecesOfPart (names : TypeNames) (part : List Drawing) : List (List Char) :=
  separated [':', ' '] (part.map (pieces names))

theorem piecesOfAll_eq (names : TypeNames) (items : List Drawing) :
    piecesOfAll names items = items.map (pieces names) := by
  induction items with
  | nil => rfl
  | cons item rest ih => rw [piecesOfAll, ih, List.map_cons]

theorem piecesOfParts_eq (names : TypeNames) (parts : List (List Drawing)) :
    piecesOfParts names parts = parts.map (piecesOfPart names) := by
  induction parts with
  | nil => rfl
  | cons part rest ih => rw [piecesOfParts, ih, piecesOfAll_eq, List.map_cons, piecesOfPart]

theorem pieces_tuple (names : TypeNames) (items : List Drawing) :
    (tuple items).pieces names =
      ['('] :: (separated [',', ' '] (items.map (pieces names)) ++ tupleEnd items.length) := by
  rw [pieces, piecesOfAll_eq]

theorem pieces_container (names : TypeNames) (id : Identity) (type : TypeId) (brackets : Brackets)
    (parts : List (List Drawing)) :
    (container id type brackets parts).pieces names =
      [brackets.opening] :: (separated [',', ' '] (parts.map (piecesOfPart names)) ++
        [[brackets.closing]]) := by
  rw [pieces, piecesOfParts_eq]

/-! ## The drawing of a value -/

variable {heap : Heap} {path outer : List Identity} {drawing node : Drawing}

/-- A drawing is as the heap and the containers around it, innermost first, demand. -/
inductive Drawn (heap : Heap) : List Identity → Drawing → Prop where
  | atom {path : List Identity} {value : Value} (atomic : Atomic heap value) :
      Drawn heap path (.atom value)
  | tuple {path : List Identity} {items : List Drawing}
      (drawn : ∀ item ∈ items, Drawn heap path item) : Drawn heap path (.tuple items)
  | container {path : List Identity} {id : Identity} (type : TypeId) {brackets : Brackets}
      {parts : List (List Drawing)}
      (holds : contents? heap id = some ⟨brackets, parts.map fun part => part.map shown⟩)
      (new : id ∉ path) (drawn : ∀ part ∈ parts, ∀ item ∈ part, Drawn heap (id :: path) item) :
      Drawn heap path (.container id type brackets parts)
  | cut {path : List Identity} {id : Identity} (type : TypeId) {contents : Contents}
      (holds : contents? heap id = some contents) (repeated : id ∈ path) :
      Drawn heap path (.cut id type contents.brackets)

/-- A list whose members all are images is the image of a list. -/
theorem exists_map_eq {α β : Type} {f : α → β} {good : α → Prop} (images : List β)
    (each : ∀ image ∈ images, ∃ a, good a ∧ f a = image) :
    ∃ list : List α, (∀ a ∈ list, good a) ∧ list.map f = images := by
  induction images with
  | nil => exact ⟨[], nofun, rfl⟩
  | cons image rest ih =>
      obtain ⟨first, isGood, rfl⟩ := each image List.mem_cons_self
      obtain ⟨list, allGood, rfl⟩ := ih fun a member => each a (List.mem_cons_of_mem _ member)
      refine ⟨first :: list, fun a member => ?_, rfl⟩
      rcases List.mem_cons.mp member with rfl | later
      · exact isGood
      · exact allGood a later

/-- Every value has a drawing, in any heap and within any containers. -/
theorem exists_drawn (heap : Heap) (path : List Identity) (value : Value) :
    ∃ drawing : Drawing, drawing.Drawn heap path ∧ drawing.shown = value := by
  -- A container leaves fewer objects to visit for its contents; items are parts of their tuple.
  induction count : unvisited heap path using Nat.strongRecOn generalizing path value with
  | ind left fewerLeft =>
      subst count
      induction value with
      | tuple items ih =>
          obtain ⟨drawings, drawn, rfl⟩ := exists_map_eq items ih
          exact ⟨.tuple drawings, .tuple drawn, shown_tuple drawings⟩
      | object id type =>
          cases holds : contents? heap id with
          | none => exact ⟨.atom (.object id type), .atom holds, rfl⟩
          | some contents =>
              by_cases repeated : id ∈ path
              · exact ⟨.cut id type contents.brackets, .cut type holds repeated, rfl⟩
              · have inside (value : Value) :
                    ∃ drawing : Drawing, drawing.Drawn heap (id :: path) ∧ drawing.shown = value :=
                  fewerLeft _ (unvisited_cons_lt holds repeated) (id :: path) value rfl
                obtain ⟨brackets, values⟩ := contents
                obtain ⟨parts, drawn, rfl⟩ := exists_map_eq values fun part _ =>
                  exists_map_eq part fun item _ => inside item
                exact ⟨.container id type brackets parts, .container type holds repeated drawn, rfl⟩
      | _ =>
          refine ⟨.atom _, .atom ?_, rfl⟩
          trivial

/-! ## Places in a drawing -/

/-- What is drawn at some place, with the containers that enclose the place, innermost first. -/
inductive Has : Drawing → List Identity → Drawing → Prop where
  | here (drawing : Drawing) : Has drawing [] drawing
  | tuple {items : List Drawing} {item node : Drawing} {path : List Identity}
      (member : item ∈ items) (inner : Has item path node) : Has (.tuple items) path node
  | container {id : Identity} {type : TypeId} {brackets : Brackets} {parts : List (List Drawing)}
      {part : List Drawing} {item node : Drawing} {path : List Identity} (inParts : part ∈ parts)
      (member : item ∈ part) (inner : Has item path node) :
      Has (.container id type brackets parts) (path ++ [id]) node

end Drawing

end Rendering

end ScriptCore
