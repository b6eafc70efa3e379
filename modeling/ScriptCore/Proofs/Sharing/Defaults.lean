import ScriptCore.Proofs.Binding.Conservation
import ScriptCore.Proofs.Sharing.Reach

/-!
# Defaults alias as declared

A shared default is one value for all calls of a function: the one that it was defined
with.  What a fresh default or a keyword collector makes belongs to one call, and nobody
sees what becomes of it who was not given it.
-/

namespace ScriptCore

/-- The type of the object that the recipe makes, if it makes one. -/
def Recipe.container? : Recipe → Option TypeId
  | list _ => some .list
  | dict _ _ => some .dict
  | plain type => some type
  | literal _ | tuple _ => none

/-- The value mentions the identity, or an object that it leads to holds a value that does. -/
inductive Heap.Contains (heap : Heap) (value : Value) : Identity → Prop where
  | mentioned {id : Identity} (inside : value.Mentions id) : Contains heap value id
  | held {owner id : Identity} {content : Value} (outer : Contains heap value owner)
      (member : content ∈ (heap.payload owner).values) (inside : content.Mentions id) :
      Contains heap value id

/-- Neither a position nor a keyword of the call gives a value for the parameter. -/
def Binding.Omits (s : Signature) (a : Arguments) (p : Parameter) : Prop :=
  p ∈ requested s a ∧ p.name ∉ given a

/-! ## One call -/

/-- What a call that binds its arguments in one machine has in its frame in the other. -/
structure Machine.Aliases (before : Machine) (function : FunctionDef) (arguments : Arguments)
    (frame : Frame) (after : Machine) : Prop where
  /-- An omitted parameter with a shared default holds the very value that is recorded. -/
  shared : ∀ p value, Binding.Omits function.signature arguments p →
    p.default = some (.shared value) → frame.local? p.name = some value
  /-- Objects are as they were left, so what was put into a shared default is still there. -/
  kept : before.world.heap.Extends after.world.heap
  /-- An omitted parameter with a fresh container holds one that the call has for itself. -/
  fresh : ∀ p recipe type, Binding.Omits function.signature arguments p →
    p.default = some (.fresh recipe) → recipe.container? = some type →
      ∃ id, frame.local? p.name = some (.object id type) ∧ before.Private after id
  /-- It has all that such a default contains for itself, to any depth. -/
  filled : ∀ p recipe value id, Binding.Omits function.signature arguments p →
    p.default = some (.fresh recipe) → frame.local? p.name = some value →
      after.world.heap.Contains value id → before.Private after id
  /-- So does the keyword collector. -/
  collector : ∀ p ∈ function.signature.keywordCollector?,
    ∃ id, frame.local? p.name = some (.object id .dict) ∧ before.Private after id

namespace Recipe

theorem Gives.container {before after : Heap} {recipe : Recipe} {value : Value} {type : TypeId}
    (gives : recipe.Gives before after value) (made : recipe.container? = some type) :
    ∃ id, value = .object id type ∧ Heap.IsNew before after id := by
  cases gives with
  | literal written => cases made
  | tuple inside => cases made
  | plain new holds =>
      cases made
      exact ⟨_, rfl, new⟩
  | list inside earlier later new holds =>
      cases made
      exact ⟨_, rfl, new.mono earlier (.refl _)⟩
  | dict inside earlier later new holds =>
      cases made
      exact ⟨_, rfl, new.mono earlier (.refl _)⟩

/-- A recipe has made the value in between. -/
def Makes (before after : Heap) (value : Value) : Prop :=
  ∃ recipe : Recipe, recipe.Gives before after value

theorem Makes.mono {first before after last : Heap} {value : Value}
    (left : first.Extends before) (right : after.Extends last) :
    Makes before after value → Makes first last value
  | ⟨recipe, gives⟩ => ⟨recipe, gives.mono left right⟩

theorem GivesAll.makes {before after : Heap} {recipes : List Recipe} {values : List Value}
    (gives : GivesAll before after recipes values) :
    ∀ value ∈ values, Makes before after value := by
  induction recipes generalizing before values with
  | nil =>
      cases gives
      exact List.forall_mem_nil _
  | cons recipe rest ih =>
      cases gives with
      | cons first earlier later following =>
          refine List.forall_mem_cons.mpr ⟨⟨recipe, first.mono (.refl _) later⟩, ?_⟩
          exact fun value member => (ih following value member).mono earlier (.refl _)

/-- The object has come about in between, and recipes have made all that it holds. -/
structure MadeOf (before after : Heap) (id : Identity) : Prop where
  new : Heap.IsNew before after id
  contents : ∀ value ∈ (after.payload id).values, Makes before after value

theorem MadeOf.mono {first before after last : Heap} {id : Identity}
    (left : first.Extends before) (right : after.Extends last) (made : MadeOf before after id) :
    MadeOf first last id where
  new := made.new.mono left right
  contents := by
    rw [right.payload _ made.new.2]
    exact fun value member => (made.contents value member).mono left right

theorem madeOf_dict {before after : Heap} {id : Identity} {keys : List Literal}
    {values : List Value} (new : Heap.IsNew before after id)
    (holds : after.payload id = .mapping (.ofPairs ((keys.map Literal.value).zip values)))
    (made : ∀ value ∈ values, Makes before after value) : MadeOf before after id := by
  have all : (Mapping.ofPairs ((keys.map Literal.value).zip values)).All
      (Makes before after) := by
    refine .ofPairs fun pair listed => ?_
    obtain ⟨key, content⟩ := List.of_mem_zip listed
    obtain ⟨written, _, same⟩ := List.mem_map.mp key
    exact ⟨same ▸ ⟨_, Gives.literal written⟩, made _ content⟩
  refine ⟨new, fun value member => ?_⟩
  rw [holds] at member
  obtain ⟨entry, listed, inside⟩ := List.mem_flatMap.mp member
  rcases List.mem_pair.mp inside with rfl | rfl
  · exact (all entry listed).1
  · exact (all entry listed).2

mutual

theorem Gives.mentions {before after : Heap} {recipe : Recipe} {value : Value} {id : Identity}
    (inside : value.Mentions id) : recipe.Gives before after value → MadeOf before after id
  | .literal written => absurd inside written.not_mentions
  | .plain new holds => by
      cases inside
      exact ⟨new, by rw [holds]; exact nofun⟩
  | .tuple items => by
      cases inside with
      | item member inside => exact items.mentions member inside
  | .list items earlier later new holds => by
      cases inside
      refine ⟨new.mono earlier (.refl _), ?_⟩
      rw [holds]
      exact fun value member => (items.makes value member).mono (.refl _) later
  | .dict items earlier later new holds => by
      cases inside
      exact madeOf_dict (new.mono earlier (.refl _)) holds fun value member =>
        (items.makes value member).mono (.refl _) later

theorem GivesAll.mentions {before after : Heap} {recipes : List Recipe} {values : List Value}
    {value : Value} {id : Identity} (member : value ∈ values) (inside : value.Mentions id) :
    GivesAll before after recipes values → MadeOf before after id
  | .nil => nomatch member
  | .cons first earlier later following => by
      rcases List.mem_cons.mp member with rfl | member
      · exact (first.mentions inside).mono (.refl _) later
      · exact (following.mentions member inside).mono earlier (.refl _)

end

/-- All that the value of a recipe contains has come about with it. -/
theorem Gives.isNew_of_contains {before after : Heap} {recipe : Recipe} {value : Value}
    {id : Identity} (gives : recipe.Gives before after value)
    (contains : after.Contains value id) : Heap.IsNew before after id := by
  suffices made : MadeOf before after id from made.new
  induction contains with
  | mentioned inside => exact gives.mentions inside
  | held outer member inside ih =>
      obtain ⟨recipe, content⟩ := ih.contents _ member
      exact content.mentions inside

end Recipe

namespace Machine

variable {machine : Machine} {function : FunctionDef} {arguments : Arguments} {bound : Bindings}
  {world : World}

theorem conserves_of_bindArguments
    (accepted : bindArguments function arguments machine.world = .ok (bound, world)) :
    ∃ heap, { machine with world } = machine.withHeap heap ∧
      Binding.Conserves function.name function.signature arguments machine.world.heap
        bound.slots heap := by
  rw [bindArguments] at accepted
  cases made : bind function.name function.signature arguments machine.world.heap with
  | error error =>
      rw [made] at accepted
      cases accepted
  | ok result =>
      rw [made] at accepted
      cases accepted
      exact ⟨result.2, rfl, Binding.bind_conserves made⟩

/-- In a machine in which all is in view, every call binds its defaults as declared. -/
theorem Closed.aliases (closed : machine.Closed Identity.shown)
    (accepted : bindArguments function arguments machine.world = .ok (bound, world)) :
    machine.Aliases function arguments (.ofArguments function.name bound)
      { machine with world } := by
  obtain ⟨heap, after, conserves⟩ := conserves_of_bindArguments accepted
  have known {name : Name} {value : Value} (slot : (name, value) ∈ bound.slots) :
      (Frame.ofArguments function.name bound).local? name = some value := by
    rw [Frame.local?, Table.get?, conserves.locals]
    exact Table.lookup_of_mem conserves.distinct slot
  have owned {id : Identity} (new : Heap.IsNew machine.world.heap heap id) :=
    closed.private_of_isNew conserves.heap new
  rw [after]
  exact
    { shared := fun p value omits declared => by
        obtain ⟨default, held, same, slot, gives⟩ := conserves.defaults p omits.1 omits.2
        cases declared.symm.trans same
        cases gives
        exact known slot
      kept := conserves.heap
      fresh := fun p recipe type omits declared made => by
        obtain ⟨default, held, same, slot, gives⟩ := conserves.defaults p omits.1 omits.2
        cases declared.symm.trans same
        obtain ⟨id, rfl, new⟩ := gives.container made
        exact ⟨id, known slot, owned new⟩
      filled := fun p recipe value id omits declared here contains => by
        obtain ⟨default, held, same, slot, gives⟩ := conserves.defaults p omits.1 omits.2
        cases declared.symm.trans same
        cases here.symm.trans (known slot)
        exact owned (gives.isNew_of_contains contains)
      collector := fun p declared => by
        obtain ⟨id, slot, new, _⟩ := conserves.collector p declared
        exact ⟨id, known slot, owned new⟩ }

end Machine

/-! ## All calls -/

/-- A new function is recorded with its parameters, and all others as before. -/
theorem World.Closed.defineFunction_records {concealed : Identity → Bool} {name : Name}
    {parameters : List Parameter} {doc : Option String} {body : Expr} {value : Value}
    {before after : World} (closed : before.Closed concealed)
    (defined : before.defineFunction name parameters doc body = .ok (value, after)) :
    before.heap.Keeps after.heap ∧ ∃ id function, value = .function id ∧
      after.heap.functions.get? id = some function ∧
        function.signature.parameters = parameters := by
  unfold World.defineFunction at defined
  split at defined
  · cases defined
  · next signature accepted =>
      cases defined
      exact ⟨closed.heap.newFunction_keeps _, _, _, rfl, Table.get?_set_self _ _ _,
        Signature.ofParameters_eq_ok_iff.mp accepted⟩

namespace Host

/-- Defaults are shared between calls exactly as they are declared. -/
structure AliasesAsDeclared (host : Host) : Prop where
  /-- A function is recorded with the defaults that are given for its parameters. -/
  captures : ∀ {machine : Machine} {name : Name} {parameters : List Parameter}
    {doc : Option String} {body : Expr} {value : Value} {world : World}, host.Sees machine →
    machine.world.defineFunction name parameters doc body = .ok (value, world) →
      machine.world.heap.Keeps world.heap ∧ ∃ id function, value = .function id ∧
        world.heap.functions.get? id = some function ∧
          function.signature.parameters = parameters
  /-- It stays recorded with them, whatever is done next. -/
  keeps : ∀ {first second : Machine} {id : Identity} {function : FunctionDef},
    host.Precedes first second → first.world.heap.functions.get? id = some function →
      second.world.heap.functions.get? id = some function
  /-- Every call falls back to them as declared; it binds right after its function is entered. -/
  aliases : ∀ {machine : Machine} {function : FunctionDef} {arguments : Arguments}
    {bound : Bindings} {world : World}, host.Sees machine →
    Machine.bindArguments function arguments machine.world = .ok (bound, world) →
      machine.Aliases function arguments (.ofArguments function.name bound)
        { machine with world }
  /-- What becomes of an object makes no difference to any call that it is out of reach of. -/
  overlooks : ∀ (depth : Nat) {invocation : Invocation} {machine : Machine} {heap : Heap},
    host.Sees machine →
    (∀ value ∈ invocation.values, value.InView Identity.shown machine.world.heap) →
    machine.world.heap.Altered (machine.Unreached (· ∈ invocation.values)) heap →
      (invocation.run (Machine.call depth)).Overlooks (machine.Unreached (· ∈ invocation.values))
        machine (machine.withHeap heap)

/--
Whatever a host does, from then on defaults alias as declared: in all that it does next,
in every run that it starts, and in every call on the way of one.
-/
theorem defaults_alias_as_declared {limit : Option Nat} {host : Host}
    (reached : Relation.ReflTransGen Move (start limit) host) : host.AliasesAsDeclared := by
  have closed := ((closed_start limit).reached reached).1
  exact
    { captures := fun sees defined => (closed.sees sees).1.world.defineFunction_records defined
      keeps := fun precedes recorded => (closed.precedes precedes).function recorded
      aliases := fun sees accepted => (closed.sees sees).1.aliases accepted
      overlooks := fun depth _ _ _ sees known altered =>
        Invocation.overlooks depth (closed.sees sees).1 known altered }

/-- Define a function that adds to both of its default lists, one of which is not empty. -/
def accumulate : Expr :=
  .sequence [
    .apply (.names (.store "f")) [
      .define "f" [⟨"all", .positional, .shared⟩,
          ⟨"own", .positional, .fresh (.list [.emptyList])⟩,
          ⟨"more", .keywordCollector, .none⟩] none
        (.sequence [
          .apply (.values .listPush) [.apply (.names (.load "all")) [], .literal (.int 1)],
          .apply (.values .listPush) [.apply (.names (.load "own")) [], .literal (.int 1)]])
        [.apply (.make .list) []]],
    .call (.value []) [.apply (.names (.load "f")) []]]

/-- The next call finds in the shared list what the first one has added, and has another own. -/
theorem defaults_alias_as_declared_accumulate :
    ∃ host function bound world, Relation.ReflTransGen Move (start none) host ∧
      host.AliasesAsDeclared ∧ host.heap.functions.get? ⟨1⟩ = some function ∧
      Machine.bindArguments function {} host.activation.machine.world = .ok (bound, world) ∧
      bound.slots = [("all", .object ⟨0⟩ .list), ("own", .object ⟨6⟩ .list),
        ("more", .object ⟨7⟩ .dict)] ∧
      world.heap.payload ⟨0⟩ = .list [.int 1] ∧
      world.heap.payload ⟨6⟩ = .list [.object ⟨5⟩ .list] := by
  have reached : Relation.ReflTransGen Move (start none)
      ((start none).take ((accumulate.eval (Machine.call 1)).run (start none).activation)) :=
    .single (.run (.evaluate 1 accumulate))
  exact ⟨_, _, _, _, reached, defaults_alias_as_declared reached, rfl, rfl, rfl, rfl, rfl⟩

end Host

end ScriptCore
