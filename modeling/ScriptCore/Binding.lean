import ScriptCore.Arguments
import ScriptCore.Heap

/-!
# Binding arguments to parameters

Parameters are bound in declaration order.  A positional parameter takes the
next positional argument while there is one, and its keyword or its default
after that; the variadic collector takes the positional arguments that are
left, the keyword collector the keywords that are left.

The first error in this order is reported: a keyword given twice, too many
positional arguments, the parameters from left to right, a keyword that is
left over.
-/

namespace ScriptCore

namespace Recipe

mutual

/-- Make the value of a recipe; what a container holds is made before it. -/
def make : Recipe → Heap → Value × Heap
  | literal written, heap => (written.value, heap)
  | plain type, heap => heap.newInstance type
  | tuple items, heap =>
      let (values, heap) := makeAll items heap
      (.tuple values, heap)
  | list items, heap =>
      let (values, heap) := makeAll items heap
      heap.newList values
  | dict keys recipes, heap =>
      let (values, heap) := makeAll recipes heap
      heap.newDict (.ofPairs ((keys.map Literal.value).zip values))

/-- Make the values of recipes, one after the other. -/
def makeAll : List Recipe → Heap → List Value × Heap
  | [], heap => ([], heap)
  | recipe :: rest, heap =>
      let (value, heap) := make recipe heap
      let (values, heap) := makeAll rest heap
      (value :: values, heap)

end

end Recipe

namespace Default

/-- The value bound when the argument is omitted. -/
def produce (heap : Heap) : Default → Value × Heap
  | shared value => (value, heap)
  | fresh recipe => recipe.make heap

end Default

namespace Binding

/-- Keyword arguments that no parameter has taken yet. -/
abbrev Pool := List (Name × Value)

/-- The earliest keyword that repeats an earlier one, where `seen` have come before. -/
def firstRepeated (seen : List Name) : List Name → Option Name
  | [] => none
  | name :: rest => if name ∈ seen then some name else firstRepeated (name :: seen) rest

/-- Take the keyword `name` out of the pool. -/
def take (name : Name) : Pool → Option (Value × Pool)
  | [] => none
  | (other, value) :: rest =>
      if other = name then some (value, rest)
      else (take name rest).map fun (found, left) => (found, (other, value) :: left)

/-- The value of a parameter that got no positional argument. -/
def keywordOrDefault (function : Name) (p : Parameter) (pool : Pool) (heap : Heap) :
    Except Error (Value × Pool × Heap) :=
  match take p.name pool with
  | some (value, pool) => .ok (value, pool, heap)
  | none =>
      match p.default with
      | some default =>
          let (value, heap) := default.produce heap
          .ok (value, pool, heap)
      | none => .error (.ofCause (.missingArgument function p.name))

/-- The mapping of the keywords that are left, keyed by their names. -/
def collected (pool : Pool) : Mapping :=
  .ofPairs (pool.map fun (name, value) => (.str name, value))

/-- Bind the parameters from left to right. -/
def slots (function : Name) :
    List Parameter → List Value → Pool → Heap → Except Error (List (Name × Value) × Heap)
  | [], _, [], heap => .ok ([], heap)
  | [], _, (keyword, _) :: _, _ => .error (.ofCause (.unexpectedKeyword function keyword))
  | p :: rest, positional, pool, heap =>
      let next (value : Value) (positional : List Value) (pool : Pool) (heap : Heap) :=
        (slots function rest positional pool heap).map fun (bound, heap) =>
          ((p.name, value) :: bound, heap)
      match p.kind, positional with
      | .positional, value :: positional =>
          if pool.any (·.1 = p.name) then
            .error (.ofCause (.multipleValues function p.name))
          else next value positional pool heap
      | .positional, [] =>
          match keywordOrDefault function p pool heap with
          | .ok (value, pool, heap) => next value [] pool heap
          | .error error => .error error
      | .keywordOnly, positional =>
          match keywordOrDefault function p pool heap with
          | .ok (value, pool, heap) => next value positional pool heap
          | .error error => .error error
      | .variadic, positional => next (.tuple positional) [] pool heap
      | .keywordCollector, positional =>
          let (value, heap) := heap.newDict (collected pool)
          next value positional [] heap

end Binding

/-- Bind the arguments of a call to the parameters of `function`. -/
def bind (function : Name) (signature : Signature) (arguments : Arguments) (heap : Heap) :
    Except Error (Bindings × Heap) :=
  let expected := signature.positional.length
  let got := arguments.positional.length
  match Binding.firstRepeated [] (arguments.keywords.map (·.1)) with
  | some keyword => .error (.ofCause (.repeatedKeyword function keyword))
  | none =>
      if signature.variadic?.isNone ∧ expected < got then
        .error (.ofCause (.tooManyPositional function expected got))
      else
        (Binding.slots function signature.parameters arguments.positional arguments.keywords
          heap).map fun (slots, heap) => (⟨slots⟩, heap)

end ScriptCore
