import ScriptCore.Builtin.Convert
import ScriptCore.Proofs.Text.Drawing

/-!
# Rendering ends

Whatever the heap looks like, rendering a value hands the pieces of its drawing
to the sink, one after the other, up to the first that the sink does not take.
Then it has ended, and the containers on the path are those from before.
-/

namespace ScriptCore

namespace Rendering

/-- Hand pieces to a sink that has taken some text, up to the first that it does not take. -/
def handOver (sink : Sink) : List Char → List (List Char) → Ending × List Char
  | text, [] => (.complete, text)
  | text, piece :: rest =>
      if sink text piece then handOver sink (text ++ piece) rest else (.refused, text)

theorem handOver_append (sink : Sink) (text : List Char) (first rest : List (List Char)) :
    handOver sink text (first ++ rest) =
      match handOver sink text first with
      | (.complete, text) => handOver sink text rest
      | (.refused, text) => (.refused, text) := by
  induction first generalizing text with
  | nil => rfl
  | cons piece first ih =>
      rw [List.cons_append, handOver, handOver]
      split
      · exact ih (text ++ piece)
      · rfl

/-- A sink that takes everything takes all pieces. -/
theorem handOver_of_takes {sink : Sink} (takes : ∀ text piece, sink text piece = true)
    (text : List Char) (pieces : List (List Char)) :
    handOver sink text pieces = (.complete, text ++ pieces.flatten) := by
  induction pieces generalizing text with
  | nil => rw [handOver, List.flatten_nil, List.append_nil]
  | cons piece rest ih =>
      rw [handOver, if_pos (takes text piece), ih, List.flatten_cons, List.append_assoc]

/-! ## What a part of a rendering emits -/

/-- Within the containers `path`, a part hands over the given pieces and does nothing else. -/
def Emits (sink : Sink) (path : List Identity) (part : Writing) (pieces : List (List Char)) :
    Prop :=
  ∀ text : List Char, part ⟨path, text⟩ =
    some ((handOver sink text pieces).1, ⟨path, (handOver sink text pieces).2⟩)

variable {sink : Sink} {path : List Identity} {first part : Writing} {rest parts : List Writing}
  {pieces others : List (List Char)}

theorem emits_put (sink : Sink) (path : List Identity) (piece : List Char) :
    Emits sink path (put sink piece) [piece] := by
  intro text
  rw [put, handOver]
  split
  · rfl
  · rfl

theorem emits_nil (sink : Sink) (path : List Identity) : Emits sink path (inOrder []) [] :=
  fun _ => rfl

theorem Emits.cons (emits : Emits sink path first pieces)
    (later : Emits sink path (inOrder rest) others) :
    Emits sink path (inOrder (first :: rest)) (pieces ++ others) := by
  intro text
  rw [inOrder, emits text, handOver_append]
  obtain ⟨ending, text⟩ := handOver sink text pieces
  cases ending with
  | complete => exact later text
  | refused => rfl

theorem emits_puts (sink : Sink) (path : List Identity) (pieces : List (List Char)) :
    Emits sink path (inOrder (pieces.map (put sink))) pieces := by
  induction pieces with
  | nil => exact emits_nil sink path
  | cons piece rest ih => exact (emits_put sink path piece).cons ih

theorem inOrder_singleton (part : Writing) : inOrder [part] = part := by
  funext renderer
  rw [inOrder]
  split
  · rename_i result
    exact result.symm
  · rfl

/-- Parts with separators between them emit their pieces with separators between them. -/
theorem emits_separated {α : Type} {write : α → Writing} {drawn : α → List (List Char)}
    (separator : List Char) {items : List α}
    (each : ∀ item ∈ items, Emits sink path (write item) (drawn item)) :
    Emits sink path (inOrder ((items.map write).intersperse (put sink separator)))
      (separated separator (items.map drawn)) := by
  induction items with
  | nil => exact emits_nil sink path
  | cons item rest ih =>
      have head := each item List.mem_cons_self
      have later := ih fun item member => each item (List.mem_cons_of_mem _ member)
      cases rest with
      | nil => simpa [separated] using head.cons (emits_nil sink path)
      | cons next rest => simpa [separated] using head.cons ((emits_put sink path separator).cons later)

/-- Inside a container the path is longer; afterwards it is as before. -/
theorem Emits.within {id : Identity} (emits : Emits sink (id :: path) part pieces) :
    Emits sink path (within id part) pieces := by
  intro text
  rw [Rendering.within, emits text]
  rfl

theorem emits_abbreviation {id : Identity} (repeated : id ∈ path) (brackets : Brackets)
    (parts : List Writing) :
    Emits sink path (container sink id brackets parts) [brackets.abbreviation] := by
  intro text
  rw [container, if_pos repeated]
  exact emits_put sink path _ text

theorem Emits.container {id : Identity} (new : id ∉ path) (brackets : Brackets)
    (emits : Emits sink (id :: path) (listed sink parts) pieces) :
    Emits sink path (container sink id brackets parts)
      ([brackets.opening] :: (pieces ++ [[brackets.closing]])) := by
  intro text
  rw [Rendering.container, if_neg new]
  have closed := emits.cons ((emits_put sink (id :: path) [brackets.closing]).cons
    (emits_nil sink (id :: path)))
  exact ((emits_put sink (id :: path) [brackets.opening]).cons closed).within text

/-! ## Values -/

theorem values_eq (names : TypeNames) (sink : Sink) (enter : ObjectWriter) (items : List Value) :
    values names sink enter items = items.map (value names sink enter) := by
  induction items with
  | nil => rfl
  | cons item rest ih => rw [values, ih, List.map_cons]

/-- A part of a container: its values with a colon between them. -/
def writePart (sink : Sink) (write : Value → Writing) (part : List Value) : Writing :=
  inOrder ((part.map write).intersperse (put sink [':', ' ']))

/-- Lists and mappings are written in the same way. -/
theorem object_succ (names : TypeNames) (heap : Heap) (sink : Sink) (depth : Nat) (id : Identity)
    (type : TypeId) : object names heap sink (depth + 1) id type =
      match contents? heap id with
      | none => put sink (atomText names (.object id type))
      | some contents => container sink id contents.brackets
          (contents.parts.map (writePart sink (value names sink (object names heap sink depth)))) := by
  rw [object, contents?]
  cases heap.payload id with
  | plain => rfl
  | mapping mapping =>
      simp only [List.map_map]
      rfl
  | list items =>
      simp only [List.map_map]
      congr 2
      funext item
      exact (inOrder_singleton _).symm

/-- A value is written as it is drawn, if the depth suffices for the containers not visited. -/
theorem Drawing.Drawn.emits {heap : Heap} {drawing : Drawing} (drawn : drawing.Drawn heap path)
    (names : TypeNames) (sink : Sink) {depth : Nat} (deep : unvisited heap path < depth) :
    Emits sink path (value names sink (object names heap sink depth) drawing.shown)
      (drawing.pieces names) := by
  induction drawn generalizing depth with
  | @atom path value atomic =>
      rw [shown, pieces]
      cases value with
      | tuple => cases atomic
      | object id type =>
          obtain ⟨depth, rfl⟩ := Nat.exists_eq_add_of_lt deep
          have plain : contents? heap id = none := atomic
          rw [Rendering.value, object_succ, plain]
          exact emits_put sink path _
      | _ => exact emits_put sink path _
  | @tuple path items _ ih =>
      rw [shown_tuple, pieces_tuple, Rendering.value, values_eq, List.map_map, List.length_map]
      have written := emits_separated [',', ' '] fun item member => ih item member deep
      have closed := written.cons (emits_puts sink path (tupleEnd items.length))
      exact (emits_put sink path ['(']).cons closed
  | @container path id type brackets parts holds new _ ih =>
      obtain ⟨depth, rfl⟩ := Nat.exists_eq_add_of_lt deep
      have fewer := unvisited_cons_lt holds new
      rw [shown, pieces_container, Rendering.value, object_succ, holds]
      refine .container new brackets ?_
      rw [List.map_map]
      refine emits_separated [',', ' '] fun part inParts => ?_
      rw [Function.comp, writePart, List.map_map]
      exact emits_separated [':', ' '] fun item member => ih part inParts item member (by omega)
  | @cut path id type contents holds repeated =>
      obtain ⟨depth, rfl⟩ := Nat.exists_eq_add_of_lt deep
      rw [shown, pieces, Rendering.value, object_succ, holds]
      exact emits_abbreviation repeated _ _

/-! ## The end of a rendering -/

namespace Drawing

variable {heap : Heap} {drawing : Drawing}

/-- Rendering is handing over the pieces of the drawing, at every depth beyond the bound. -/
theorem Drawn.render_eq (renderer : Renderer) (drawn : drawing.Drawn heap renderer.active)
    (names : TypeNames) (sink : Sink) {depth : Nat} (deep : depthBound heap ≤ depth) :
    value names sink (object names heap sink depth) drawing.shown renderer =
      some ((handOver sink renderer.text (drawing.pieces names)).1,
        { renderer with text := (handOver sink renderer.text (drawing.pieces names)).2 }) :=
  drawn.emits names sink (unvisited_lt renderer.active deep) renderer.text

/-- The whole text of a value is that of its drawing. -/
theorem Drawn.write_eq (drawn : drawing.Drawn heap []) (names : TypeNames) :
    write names heap drawing.shown = some (drawing.text names) := by
  have takes : ∀ text piece, Sink.unlimited text piece = true := fun _ _ => rfl
  have rendered := drawn.render_eq {} names .unlimited (Nat.le_refl (depthBound heap))
  rw [handOver_of_takes takes] at rendered
  rw [write, render, rendered]
  rfl

end Drawing

/-! ## What is made from the text of a value -/

theorem display_eq (names : TypeNames) (heap : Heap) (v : Value) :
    v.display names heap = v.asStr.getD (v.repr names heap) := by
  cases v <;> rfl

theorem raised_message (names : TypeNames) (heap : Heap) (type : TypeId) {v : Value}
    (given : v.isNone = false) : (Error.raised names heap type v).message = v.display names heap := by
  cases v with
  | none => cases given
  | _ => rfl

/-- A value has a text, and what quotes the value quotes this text. -/
structure HasText (names : TypeNames) (heap : Heap) (v : Value) (text : String) : Prop where
  written : write names heap v = some text.toList
  repr : v.repr names heap = text
  display : v.display names heap = v.asStr.getD text
  converted : ∀ world : World, world.names = names → world.heap = heap →
    world.convertTo .str v = .ok (.str (v.asStr.getD text), world)
  missingKey : (Error.keyNotFound names heap v).message = text
  raised : ∀ type : TypeId, v.isNone = false →
    (Error.raised names heap type v).message = v.asStr.getD text

theorem hasText_of_write {names : TypeNames} {heap : Heap} {v : Value} {text : List Char}
    (written : write names heap v = some text) : HasText names heap v (String.ofList text) := by
  have repr : v.repr names heap = String.ofList text := by rw [Value.repr, written, Option.getD_some]
  have display : v.display names heap = v.asStr.getD (String.ofList text) := by rw [display_eq, repr]
  refine ⟨?_, repr, display, ?_, repr, ?_⟩
  · rw [written, String.toList_ofList]
  · rintro world rfl rfl
    rw [← display]
    rfl
  · intro type given
    rw [raised_message names heap type given, display]

/--
Rendering ends on every heap and for every sink, with the path it started with
and in the same way at every depth beyond the bound.  It is complete if the sink
takes everything, so that every value has a text.
-/
theorem rendering_ends (names : TypeNames) (heap : Heap) :
    (∀ (sink : Sink) (v : Value) (renderer : Renderer), ∃ (ending : Ending) (text : List Char),
      render names heap sink v renderer = some (ending, { renderer with text := text }) ∧
      (∀ depth : Nat, depthBound heap ≤ depth →
        value names sink (object names heap sink depth) v renderer =
          some (ending, { renderer with text := text })) ∧
      ((∀ before piece, sink before piece = true) → ending = .complete)) ∧
    ∀ v : Value, ∃ text : String, HasText names heap v text := by
  constructor
  · intro sink v renderer
    obtain ⟨drawing, drawn, rfl⟩ := Drawing.exists_drawn heap renderer.active v
    refine ⟨_, _, drawn.render_eq renderer names sink (Nat.le_refl _),
      fun depth deep => drawn.render_eq renderer names sink deep, fun takes => ?_⟩
    rw [handOver_of_takes takes]
  · intro v
    obtain ⟨drawing, drawn, rfl⟩ := Drawing.exists_drawn heap [] v
    exact ⟨_, hasText_of_write (drawn.write_eq names)⟩

/-- A mapping that holds itself, in its only key and as the value of that key. -/
def selfKeyed : Heap :=
  { next := 1
    payloads := (∅ : Table Identity Payload).set ⟨0⟩
      (.mapping ⟨[(.tuple [.object ⟨0⟩ .dict], .object ⟨0⟩ .dict)]⟩) }

/-- Written within another container, the mapping leaves the path as it was. -/
theorem rendering_ends_selfKeyed :
    (∃ text : List Char, render TypeId.builtinName selfKeyed .unlimited (.object ⟨0⟩ .dict)
        ⟨[⟨7⟩], []⟩ = some (.complete, ⟨[⟨7⟩], text⟩) ∧
      value TypeId.builtinName .unlimited (object TypeId.builtinName selfKeyed .unlimited 2)
        (.object ⟨0⟩ .dict) ⟨[⟨7⟩], []⟩ = some (.complete, ⟨[⟨7⟩], text⟩)) ∧
      (Value.object ⟨0⟩ .dict).repr TypeId.builtinName selfKeyed =
        "\x7b(\x7b...\x7d,): \x7b...\x7d\x7d" := by
  obtain ⟨ends, texts⟩ := rendering_ends TypeId.builtinName selfKeyed
  obtain ⟨ending, text, rendered, deeper, complete⟩ :=
    ends .unlimited (.object ⟨0⟩ .dict) ⟨[⟨7⟩], []⟩
  obtain rfl := complete fun _ _ => rfl
  obtain ⟨shown, hasText⟩ := texts (.object ⟨0⟩ .dict)
  refine ⟨⟨text, rendered, deeper 2 (by decide)⟩, ?_⟩
  have written : "\x7b(\x7b...\x7d,): \x7b...\x7d\x7d".toList = shown.toList :=
    Option.some.inj (.trans (by decide) hasText.written)
  rw [hasText.repr, String.toList_inj.mp written]

end Rendering

end ScriptCore
