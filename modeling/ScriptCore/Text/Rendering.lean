import ScriptCore.Heap
import ScriptCore.Number.Text
import ScriptCore.Text.Quoted

/-!
# Values as text

Scalars, strings and tuples are written from their contents, lists and
mappings by following the heap.  A renderer keeps the containers it is writing;
a container met again inside itself is abbreviated.

Following the heap is bounded by a number of nested containers.  The containers
being written are all different containers of the heap, so the number of
objects in the heap, plus one for the repeated one, is enough.
-/

namespace ScriptCore

namespace Rendering

/-! ## Renderers -/

/-- Where the text goes: whether a further piece is taken after the text so far. -/
abbrev Sink := List Char → List Char → Bool

/-- A sink that takes everything, as a string does. -/
def Sink.unlimited : Sink := fun _ _ => true

/-- What is kept while a value is written. -/
structure Renderer where
  /-- The containers on the current path, innermost first. -/
  active : List Identity := []
  /-- The text that the sink has taken. -/
  text : List Char := []

/-- How writing ends. -/
inductive Ending where
  | complete
  /-- The sink did not take a piece, and nothing was written after it. -/
  | refused
deriving DecidableEq, Repr

/-- A part of the rendering; no result if containers are nested too deeply. -/
abbrev Writing := Renderer → Option (Ending × Renderer)

/-- Hand one piece of text to the sink. -/
def put (sink : Sink) (piece : List Char) : Writing := fun renderer =>
  if sink renderer.text piece then
    some (.complete, { renderer with text := renderer.text ++ piece })
  else some (.refused, renderer)

/-- One part after the other, up to the first that is refused. -/
def inOrder : List Writing → Writing
  | [], renderer => some (.complete, renderer)
  | first :: rest, renderer =>
      match first renderer with
      | some (.complete, renderer) => inOrder rest renderer
      | stopped => stopped

/-- Enter a container, write its contents, and leave it again however that ended. -/
def within (id : Identity) (contents : Writing) : Writing := fun renderer =>
  (contents { renderer with active := id :: renderer.active }).map fun (ending, renderer) =>
    (ending, { renderer with active := renderer.active.tail })

/-- Parts with a comma and a blank between them. -/
def listed (sink : Sink) (parts : List Writing) : Writing :=
  inOrder (parts.intersperse (put sink [',', ' ']))

/-! ## Parts of the text -/

/-- What stands around the contents of a container. -/
structure Brackets where
  opening : Char
  closing : Char
deriving DecidableEq, Repr

namespace Brackets

def square : Brackets := ⟨'[', ']'⟩

def curly : Brackets := ⟨Char.ofNat 0x7b, Char.ofNat 0x7d⟩

/-- A container whose contents are left out. -/
def abbreviation (brackets : Brackets) : List Char :=
  [brackets.opening, '.', '.', '.', brackets.closing]

end Brackets

def typeText (names : TypeNames) (type : TypeId) : String :=
  match names type with
  | some name => s!"<class '{name}'>"
  | none => "<class>"

def instanceText (names : TypeNames) (type : TypeId) : String :=
  match names type with
  | some name => s!"<{name} object>"
  | none => "<object>"

/--
The text of a value that has no contents.  A tuple is written as if it were
empty and an object as a plain instance.
-/
def atomText (names : TypeNames) : Value → List Char
  | .none => "None".toList
  | .bool true => "True".toList
  | .bool false => "False".toList
  | .int n => NumberText.ofInt n.toInt
  | .float x => NumberText.ofFloat x
  | .str text => Quoted.write text
  | .tuple _ => ['(', ')']
  | .object _ type => (instanceText names type).toList
  | .type type => (typeText names type).toList
  | .function _ => "<function>".toList
  | .native native => s!"<native_function {native.name}>".toList
  | .boundMethod .. => "<bound_method>".toList
  | .error _ _ report _ _ => report.message.toList

/-- What follows the items of a tuple; a single item keeps a comma behind it. -/
def tupleEnd (count : Nat) : List (List Char) :=
  if count = 1 then [[','], [')']] else [[')']]

/-! ## Values -/

/-- How an object is written. -/
abbrev ObjectWriter := Identity → TypeId → Writing

mutual

/-- Write a value, where `enter` writes objects. -/
def value (names : TypeNames) (sink : Sink) (enter : ObjectWriter) : Value → Writing
  | .tuple items =>
      inOrder (put sink ['('] :: listed sink (values names sink enter items) ::
        (tupleEnd items.length).map (put sink))
  | .object id type => enter id type
  | atom => put sink (atomText names atom)

/-- Write values, one by one. -/
def values (names : TypeNames) (sink : Sink) (enter : ObjectWriter) : List Value → List Writing
  | [] => []
  | item :: rest => value names sink enter item :: values names sink enter rest

end

/-- An entry of a mapping: key, colon and value. -/
def entry (sink : Sink) (write : Value → Writing) (entry : Value × Value) : Writing :=
  inOrder [write entry.1, put sink [':', ' '], write entry.2]

/-- A container with its contents, or abbreviated inside itself. -/
def container (sink : Sink) (id : Identity) (brackets : Brackets) (contents : List Writing) :
    Writing := fun renderer =>
  if id ∈ renderer.active then put sink brackets.abbreviation renderer
  else
    within id (inOrder [put sink [brackets.opening], listed sink contents,
      put sink [brackets.closing]]) renderer

/-- Write an object with at most `depth` objects inside each other. -/
def object (names : TypeNames) (heap : Heap) (sink : Sink) : Nat → ObjectWriter
  | 0, _, _ => fun _ => none
  | depth + 1, id, type =>
      let write := value names sink (object names heap sink depth)
      match heap.payload id with
      | .plain => put sink (atomText names (.object id type))
      | .mapping mapping =>
          container sink id .curly (mapping.entries.map (entry sink write))
      | .list items => container sink id .square (items.map write)

/-- Containers can be nested this deep before one of them repeats. -/
def depthBound (heap : Heap) : Nat := heap.payloads.size + 1

/-- Write a value within a heap. -/
def render (names : TypeNames) (heap : Heap) (sink : Sink) : Value → Writing :=
  value names sink (object names heap sink (depthBound heap))

/-- The whole text of a value within a heap. -/
def write (names : TypeNames) (heap : Heap) (v : Value) : Option (List Char) :=
  (render names heap .unlimited v {}).map fun (_, renderer) => renderer.text

end Rendering

namespace Value

/-- The text of a value as it would stand in a program. -/
def repr (names : TypeNames) (heap : Heap) (v : Value) : String :=
  String.ofList ((Rendering.write names heap v).getD [])

/-- The text of a value for a reader: a string stands for itself. -/
def display (names : TypeNames) (heap : Heap) : Value → String
  | .str text => text
  | v => v.repr names heap

end Value

/-! ## Errors that quote a value -/

namespace Error

/-- A missing mapping key, which becomes the payload. -/
def keyNotFound (names : TypeNames) (heap : Heap) (key : Value) : Error :=
  .new .keyError (.keyNotFound (key.repr names heap)) key

/-- A failed assertion; the message becomes the payload unchanged. -/
def assertionFailed (names : TypeNames) (heap : Heap) (message : Option Value) : Error :=
  .new .assertionError (.assertionFailed (message.map (·.display names heap)))
    (Value.ofOption message)

/-- An error of an explicit type; the payload is displayed, and `none` is no message. -/
def raised (names : TypeNames) (heap : Heap) (type : TypeId) (payload : Value) : Error :=
  let message := match payload with
    | .none => ""
    | other => other.display names heap
  .new type (.raised message) payload

end Error

end ScriptCore
