import ScriptCore.Call
import ScriptCore.Proofs.Binding.Conservation
import ScriptCore.Proofs.World.Bodies
import ScriptCore.Proofs.World.Untouched

/-!
# Operations step by step

An operation that fails gives no world at all, so nothing can be left of it.  Here
the same operations are computations, in which every write takes effect at once and
is never taken back.  They give the same results, and where they fail the world
stays as it was, because no write comes before the last check.
-/

namespace ScriptCore

namespace Stepwise

/-! ## Refinement -/

/-- Steps that do what an operation does, and leave no trace where it fails. -/
structure Refines {α : Type} (steps : Computation World α)
    (operation : World → Except Error (α × World)) : Prop where
  value : ∀ {world next a}, operation world = .ok (a, next) → steps.run world = (.value a, next)
  error : ∀ {world error}, operation world = .error error →
    ∃ next, steps.run world = (.raised error, next) ∧ world.Untouched next

section Refinement

variable {α β : Type} {steps : Computation World α} {operation : World → Except Error (α × World)}

theorem Refines.congr {other : World → Except Error (α × World)} (refines : Refines steps other)
    (same : ∀ world, operation world = other world) : Refines steps operation :=
  (funext same : operation = other) ▸ refines

theorem refines_inspect (look : World → Except Error α) :
    Refines (.inspect look) fun world => (look world).map (·, world) where
  value {world next a} given := by
    simp only [Computation.inspect]
    cases found : look world with
    | ok b =>
        rw [found] at given
        cases given
        rfl
    | error error =>
        rw [found] at given
        cases given
  error {world error} given := by
    simp only [Computation.inspect]
    cases found : look world with
    | ok b =>
        rw [found] at given
        cases given
    | error error =>
        rw [found] at given
        cases given
        exact ⟨world, rfl, .refl world⟩

/-- An operation that changes nothing even where it succeeds only looks at the world. -/
theorem refines_reading (reads : ∀ world, Gives (·.2 = world) (operation world)) :
    Refines (.inspect fun world => (operation world).map (·.1)) operation := by
  refine (refines_inspect _).congr fun world => ?_
  cases given : operation world with
  | error error => rfl
  | ok made =>
      obtain ⟨a, next⟩ := made
      exact congrArg (fun next => Except.ok (a, next)) (reads world _ given)

theorem refines_pure (a : α) : Refines (.pure a) fun world => .ok (a, world) :=
  ⟨fun given => by cases given; rfl, nofun⟩

theorem refines_raise (error : Error) :
    Refines (.raise error : Computation World α) fun _ => .error error :=
  (refines_inspect _).congr fun _ => rfl

/-- One step by itself either happens or does not. -/
theorem refines_update (step : World → Except Error (α × World)) :
    Refines (.update step) step where
  value given := by simp only [Computation.update, given]
  error {world _} given := ⟨world, by simp only [Computation.update, given], .refl world⟩

/-- What comes first must be without effect where what comes next may still fail. -/
theorem Refines.bind {next : α → Computation World β}
    {later : α → World → Except Error (β × World)} (first : Refines steps operation)
    (second : ∀ a, Refines (next a) (later a))
    (quiet : ∀ world a middle error, operation world = .ok (a, middle) →
      later a middle = .error error → world.Untouched middle) :
    Refines (steps >>= next) fun world =>
      (operation world).bind fun (a, middle) => later a middle where
  value {world last b} given := by
    cases began : operation world with
    | error error =>
        rw [began] at given
        cases given
    | ok made =>
        obtain ⟨a, middle⟩ := made
        rw [began] at given
        rw [Computation.run_bind_of_value (first.value began)]
        exact (second a).value given
  error {world error} given := by
    cases began : operation world with
    | error reason =>
        rw [began] at given
        cases given
        obtain ⟨middle, raised, untouched⟩ := first.error began
        exact ⟨middle, Computation.run_bind_of_raised raised next, untouched⟩
    | ok made =>
        obtain ⟨a, middle⟩ := made
        rw [began] at given
        rw [Computation.run_bind_of_value (first.value began)]
        obtain ⟨last, raised, untouched⟩ := (second a).error given
        exact ⟨last, raised, (quiet world a middle error began given).trans untouched⟩

/-- A look at the world comes before anything else. -/
theorem Refines.inspect_bind {look : World → Except Error α} {next : α → Computation World β}
    {later : α → World → Except Error (β × World)} (second : ∀ a, Refines (next a) (later a)) :
    Refines (.inspect look >>= next) fun world => (look world).bind fun a => later a world := by
  have both := (refines_inspect look).bind second fun world a middle error found _ => by
    cases looked : look world with
    | error reason =>
        rw [looked] at found
        cases found
    | ok b =>
        rw [looked] at found
        cases found
        exact .refl world
  refine both.congr fun world => ?_
  cases look world <;> rfl

end Refinement

/-! ## Attributes -/

/-- A write, which takes effect at once. -/
def write (change : World → World) : Computation World Unit :=
  .update fun world => .ok ((), change world)

theorem refines_write (change : World → World) :
    Refines (write change) fun world => .ok ((), change world) :=
  refines_update _

/-- Refuse an assignment to an attribute of a type. -/
def refuseTypeAttribute : Computation World Unit :=
  .inspect fun world => .error (.ofCause (.cannotSetAttribute (world.types.typeName .type)))

def setTypeAttribute (type : TypeId) (name : Name) (value : Value) : Computation World Unit :=
  match name with
  | "__doc__" => match value with
      | .str doc => write fun world => { world with types := world.types.setDoc type doc }
      | _ => refuseTypeAttribute
  | "__name__" => refuseTypeAttribute
  | "__base__" => refuseTypeAttribute
  | _ => write fun world => { world with types := world.types.setCapability type name value }

def setAttribute (target : Value) (name : Name) (value : Value) : Computation World Unit :=
  match target with
  | .object id _ | .function id =>
      write fun world => { world with heap := world.heap.setAttribute id name value }
  | .type type => setTypeAttribute type name value
  | _ => .inspect fun world => .error (.ofCause (.cannotSetAttribute (world.typeNameOf target)))

/-- Take an attribute away; says whether there was one. -/
def remove (target : Value) (name : Name) (world : World) : Except Error (Bool × World) :=
  match target with
  | .object id _ | .function id =>
      .ok ((world.heap.attributesOf id).contains name,
        { world with heap := world.heap.eraseAttribute id name })
  | .type type =>
      .ok ((world.types.ownCapability type name).isSome,
        { world with types := world.types.eraseCapability type name })
  | _ => .error (.ofCause (.cannotDeleteAttribute (world.typeNameOf target) name))

/-- Take an attribute away, and ask afterwards whether there was one. -/
def deleteAttribute (target : Value) (name : Name) : Computation World Unit := do
  let removed ← Computation.update (remove target name)
  if removed then return ()
  else Computation.inspect fun world => .error (world.noSuchAttribute target name)

/-! ## Definitions -/

/-- Make a value on the heap. -/
def make (made : Heap → Value × Heap) : Computation World Value :=
  .update fun world => .ok (world.allocate (made world.heap))

def defineFunction (name : Name) (parameters : List Parameter) (doc : Option String)
    (body : Expr) : Computation World Value :=
  match Signature.ofParameters parameters with
  | .error error => .raise (.ofCause (.invalidSignature name error.describe))
  | .ok signature => do
      let id ← Computation.update fun world => .ok (world.addBody (.user body))
      make fun heap => heap.newFunction { name, signature, doc, body := id }

/-! ## Arguments -/

/-- The keyword for a parameter, or its default, which may be made now. -/
def keywordOrDefault (function : Name) (p : Parameter) (pool : Binding.Pool) :
    Computation World (Value × Binding.Pool) :=
  match Binding.take p.name pool with
  | some found => .pure found
  | none =>
      match p.default with
      | some default => do
          let value ← make default.produce
          return (value, pool)
      | none => .raise (.ofCause (.missingArgument function p.name))

/-- Bind the parameters from left to right; what is made for one of them stays made. -/
def slots (function : Name) :
    List Parameter → List Value → Binding.Pool → Computation World (List (Name × Value))
  | [], _, [] => .pure []
  | [], _, (keyword, _) :: _ => .raise (.ofCause (.unexpectedKeyword function keyword))
  | p :: rest, positional, pool =>
      let next (value : Value) (positional : List Value) (pool : Binding.Pool) := do
        let bound ← slots function rest positional pool
        return (p.name, value) :: bound
      match p.kind, positional with
      | .positional, value :: positional =>
          if pool.any (·.1 = p.name) then
            .raise (.ofCause (.multipleValues function p.name))
          else next value positional pool
      | .positional, [] => do
          let (value, pool) ← keywordOrDefault function p pool
          next value [] pool
      | .keywordOnly, positional => do
          let (value, pool) ← keywordOrDefault function p pool
          next value positional pool
      | .variadic, positional => next (.tuple positional) [] pool
      | .keywordCollector, positional => do
          let value ← make fun heap => heap.newDict (Binding.collected pool)
          next value positional []

/-- Bind the arguments of a call to the parameters of the function. -/
def bindArguments (function : FunctionDef) (arguments : Arguments) : Computation World Bindings :=
  let expected := function.signature.positional.length
  let got := arguments.positional.length
  match Binding.firstRepeated [] (arguments.keywords.map (·.1)) with
  | some keyword => .raise (.ofCause (.repeatedKeyword function.name keyword))
  | none =>
      if function.signature.variadic?.isNone ∧ expected < got then
        .raise (.ofCause (.tooManyPositional function.name expected got))
      else do
        let bound ← slots function.name function.signature.parameters arguments.positional
          arguments.keywords
        return ⟨bound⟩

/-! ## Built-in functions -/

/-- Run a built-in function that does not call back. -/
def runSimple (builtin : Builtin) (arguments : List Value) : Computation World Value :=
  match builtin, arguments with
  | .dict .setItem, [receiver, key, value] => do
      let (id, mapping) ← Computation.inspect (·.expectMapping receiver)
      write (·.setPayload id (.mapping (mapping.insert key value)))
      return .none
  | .list .append, [receiver, item] => do
      let (id, items) ← Computation.inspect (·.expectList receiver)
      write (·.setPayload id (.list (items ++ [item])))
      return .none
  | .introspection .setAttribute, [target, name, value] => do
      let name ← Computation.inspect (·.attributeName name)
      setAttribute target name value
      return .none
  | .introspection .deleteAttribute, [target, name] => do
      let name ← Computation.inspect (·.attributeName name)
      deleteAttribute target name
      return .none
  | builtin, arguments =>
      .inspect fun world => (builtin.runSimple world arguments).map (·.1)

/-! ## The steps do what the operations do -/

section Refinements

variable {target value : Value} {name : Name}

theorem refines_refuseTypeAttribute :
    Refines refuseTypeAttribute fun world =>
      (.error (.ofCause (.cannotSetAttribute (world.types.typeName .type))) :
        Except Error World).map ((), ·) :=
  (refines_inspect _).congr fun _ => rfl

theorem refines_setTypeAttribute (type : TypeId) (name : Name) (value : Value) :
    Refines (setTypeAttribute type name value) fun world =>
      (world.setTypeAttribute type name value).map ((), ·) := by
  by_cases doc : name = "__doc__"
  · subst doc
    cases value with
    | str doc => exact refines_write _
    | _ => exact refines_refuseTypeAttribute
  · unfold setTypeAttribute World.setTypeAttribute
    split
    · exact absurd rfl doc
    · exact refines_refuseTypeAttribute
    · exact refines_refuseTypeAttribute
    · refine (refines_write _).congr fun world => ?_
      simp only [Except.map]

theorem refines_setAttribute (target : Value) (name : Name) (value : Value) :
    Refines (setAttribute target name value) fun world =>
      (world.setAttribute target name value).map ((), ·) := by
  cases target with
  | object id _ => exact refines_write _
  | function id => exact refines_write _
  | type type => exact refines_setTypeAttribute type name value
  | _ => exact (refines_inspect _).congr fun _ => rfl

theorem eraseCapability_of_isNone {registry : Registry} {type : TypeId} {name : Name}
    (absent : (registry.ownCapability type name).isSome = false) :
    registry.eraseCapability type name = registry := by
  apply Registry.eraseCapability_of_absent
  exact Option.not_isSome_iff_eq_none.mp (Bool.eq_false_iff.mp absent)

/-- Taking away what is not there leaves no trace. -/
theorem untouched_remove {world middle : World}
    (absent : remove target name world = .ok (false, middle)) : world.Untouched middle := by
  have attached (id : Identity) (absent : (world.heap.attributesOf id).contains name = false) :
      world.Untouched { world with heap := world.heap.eraseAttribute id name } := by
    have nothing := Option.not_isSome_iff_eq_none.mp (Bool.eq_false_iff.mp absent)
    exact World.untouched_of_extends (world.heap.eraseAttribute_extends nothing)
  cases target with
  | object id _ =>
      obtain ⟨nothing, rfl⟩ := Prod.mk.inj (Except.ok.inj absent)
      exact attached id nothing
  | function id =>
      obtain ⟨nothing, rfl⟩ := Prod.mk.inj (Except.ok.inj absent)
      exact attached id nothing
  | type type =>
      obtain ⟨nothing, rfl⟩ := Prod.mk.inj (Except.ok.inj absent)
      rw [eraseCapability_of_isNone nothing]
      exact .refl world
  | _ => exact nomatch absent

/-- To take away first and to ask afterwards is to ask first. -/
theorem deleteAttribute_eq (world : World) (target : Value) (name : Name) :
    world.deleteAttribute target name =
      (remove target name world).bind fun (removed, middle) =>
        if removed then .ok middle else .error (middle.noSuchAttribute target name) := by
  cases target with
  | type type =>
      simp only [World.deleteAttribute, remove, Except.bind]
      cases defined : (world.types.ownCapability type name).isSome with
      | true => rfl
      | false => rw [eraseCapability_of_isNone defined]
  | _ => rfl

theorem refines_deleteAttribute (target : Value) (name : Name) :
    Refines (deleteAttribute target name) fun world =>
      (world.deleteAttribute target name).map ((), ·) := by
  have asked (removed : Bool) :
      Refines
        (if removed then pure ()
          else Computation.inspect fun world => .error (world.noSuchAttribute target name))
        fun middle => if removed then .ok ((), middle)
          else .error (middle.noSuchAttribute target name) := by
    cases removed with
    | true => exact refines_pure ()
    | false => exact (refines_inspect _).congr fun _ => rfl
  refine ((refines_update (remove target name)).bind asked ?_).congr fun world => ?_
  · intro world removed middle error taken refused
    cases removed with
    | true => cases refused
    | false => exact untouched_remove taken
  · rw [deleteAttribute_eq]
    cases remove target name world with
    | error error => rfl
    | ok made =>
        obtain ⟨removed, middle⟩ := made
        cases removed <;> rfl

theorem refines_make (made : Heap → Value × Heap) :
    Refines (make made) fun world => .ok (world.allocate (made world.heap)) :=
  refines_update _

theorem refines_defineFunction (name : Name) (parameters : List Parameter) (doc : Option String)
    (body : Expr) :
    Refines (defineFunction name parameters doc body) fun world =>
      world.defineFunction name parameters doc body := by
  unfold defineFunction World.defineFunction
  cases Signature.ofParameters parameters with
  | error error => exact refines_raise _
  | ok signature =>
      exact (refines_update _).bind (fun id => refines_make _) fun _ _ _ _ _ => nofun

/-- The keyword for a parameter or its default, with the world that has what was made. -/
def supplied (function : Name) (p : Parameter) (pool : Binding.Pool) (world : World) :
    Except Error ((Value × Binding.Pool) × World) :=
  (Binding.keywordOrDefault function p pool world.heap).map fun (value, pool, heap) =>
    ((value, pool), { world with heap })

theorem refines_keywordOrDefault (function : Name) (p : Parameter) (pool : Binding.Pool) :
    Refines (keywordOrDefault function p pool) (supplied function p pool) := by
  unfold keywordOrDefault supplied Binding.keywordOrDefault
  cases Binding.take p.name pool with
  | some found => exact refines_pure _
  | none =>
      cases p.default with
      | some default =>
          exact (refines_make _).bind (fun value => refines_pure _) fun _ _ _ _ _ => nofun
      | none => exact refines_raise _

/-- The value of a parameter may be a new object, and nothing else is new. -/
theorem untouched_supplied (function : Name) (p : Parameter) (pool : Binding.Pool)
    (world : World) : Gives (world.Untouched ·.2) (supplied function p pool world) := by
  unfold supplied Binding.keywordOrDefault
  split
  · exact gives_ok.mpr (.refl world)
  · split
    · exact gives_ok.mpr (World.untouched_of_extends (Default.produce_extends _ _))
    · exact gives_error _

/-- What is left to be done after a parameter has been bound. -/
theorem refines_next {function : Name} {rest : List Parameter} (p : Parameter) (value : Value)
    (ih : ∀ positional pool, Refines (slots function rest positional pool) fun world =>
      (Binding.slots function rest positional pool world.heap).map fun (bound, heap) =>
        (bound, { world with heap }))
    (positional : List Value) (pool : Binding.Pool) :
    Refines (do
        let bound ← slots function rest positional pool
        return (p.name, value) :: bound) fun world =>
      ((Binding.slots function rest positional pool world.heap).map fun (bound, heap) =>
        ((p.name, value) :: bound, heap)).map fun (bound, heap) =>
          (bound, { world with heap }) := by
  have both := (ih positional pool).bind (fun bound => refines_pure ((p.name, value) :: bound))
    fun _ _ _ _ _ => nofun
  refine both.congr fun world => ?_
  cases Binding.slots function rest positional pool world.heap <;> rfl

theorem refines_slots (function : Name) (parameters : List Parameter) (positional : List Value)
    (pool : Binding.Pool) :
    Refines (slots function parameters positional pool) fun world =>
      (Binding.slots function parameters positional pool world.heap).map fun (bound, heap) =>
        (bound, { world with heap }) := by
  induction parameters generalizing positional pool with
  | nil =>
      cases pool with
      | nil => exact refines_pure []
      | cons entry rest => exact refines_raise _
  | cons p rest ih =>
      have next (value : Value) := refines_next p value ih
      have other (positional : List Value) (pool : Binding.Pool) :=
        (refines_keywordOrDefault function p pool).bind
          (fun found => next found.1 positional found.2) fun world found middle _ given _ =>
            untouched_supplied function p pool world _ given
      cases kind : p.kind with
      | positional =>
          cases positional with
          | nil =>
              simp only [slots, Binding.slots, kind]
              refine (other [] pool).congr fun world => ?_
              rw [supplied]
              cases Binding.keywordOrDefault function p pool world.heap <;> rfl
          | cons value positional =>
              simp only [slots, Binding.slots, kind]
              split
              · exact refines_raise _
              · exact next value positional pool
      | keywordOnly =>
          simp only [slots, Binding.slots, kind]
          refine (other positional pool).congr fun world => ?_
          rw [supplied]
          cases Binding.keywordOrDefault function p pool world.heap <;> rfl
      | variadic =>
          simp only [slots, Binding.slots, kind]
          exact next (.tuple positional) [] pool
      | keywordCollector =>
          simp only [slots, Binding.slots, kind]
          refine (refines_make _).bind (fun value => next value positional [])
            fun world value middle _ given _ => ?_
          cases given
          exact World.untouched_of_extends (world.heap.newObject_extends .dict _)

theorem refines_bindArguments (function : FunctionDef) (arguments : Arguments) :
    Refines (bindArguments function arguments) (Machine.bindArguments function arguments) := by
  unfold bindArguments Machine.bindArguments bind
  dsimp only
  cases Binding.firstRepeated [] (arguments.keywords.map (·.1)) with
  | some keyword => exact refines_raise _
  | none =>
      by_cases overflow : function.signature.variadic?.isNone ∧
          function.signature.positional.length < arguments.positional.length
      · simp only [if_pos overflow]
        exact refines_raise _
      · simp only [if_neg overflow]
        have bound := (refines_slots function.name function.signature.parameters
          arguments.positional arguments.keywords).bind
            (fun bound => refines_pure (⟨bound⟩ : Bindings)) fun _ _ _ _ _ => nofun
        refine bound.congr fun world => ?_
        cases Binding.slots function.name function.signature.parameters arguments.positional
          arguments.keywords world.heap <;> rfl

/-! ## Built-in functions -/

/-- The built-in functions that write, if they are given as many arguments as they need. -/
inductive Writes : Builtin → List Value → Prop where
  | setItem (receiver key value : Value) : Writes (.dict .setItem) [receiver, key, value]
  | append (receiver item : Value) : Writes (.list .append) [receiver, item]
  | setAttribute (target name value : Value) :
      Writes (.introspection .setAttribute) [target, name, value]
  | deleteAttribute (target name : Value) :
      Writes (.introspection .deleteAttribute) [target, name]

theorem dict_reads {method : DictMethod} {arguments : List Value} (world : World)
    (reads : ¬ Writes (.dict method) arguments) :
    Gives (·.2 = world) (method.run world arguments) := by
  unfold DictMethod.run
  split <;> simp
  · intro id mapping found
    split <;> simp
  · exact absurd (.setItem _ _ _) reads

theorem list_reads {method : ListMethod} {arguments : List Value} (world : World)
    (reads : ¬ Writes (.list method) arguments) :
    Gives (·.2 = world) (method.run world arguments) := by
  unfold ListMethod.run
  split <;> simp
  exact absurd (.append _ _) reads

theorem introspection_reads {function : Introspection} {arguments : List Value} (world : World)
    (reads : ¬ Writes (.introspection function) arguments) :
    Gives (·.2 = world) (function.run world arguments) := by
  unfold Introspection.run
  split <;> simp
  · exact absurd (.setAttribute _ _ _) reads
  · exact absurd (.deleteAttribute _ _) reads

theorem runSimple_reads {builtin : Builtin} {arguments : List Value} (world : World)
    (reads : ¬ Writes builtin arguments) :
    Gives (·.2 = world) (builtin.runSimple world arguments) := by
  cases builtin with
  | number kind operation => simp [Builtin.runSimple]
  | dict method => exact dict_reads world reads
  | list method => exact list_reads world reads
  | tuple method => simp [Builtin.runSimple]
  | introspection function => exact introspection_reads world reads
  | length | sum | collect => exact gives_ok.mpr rfl

theorem refines_runSimple (builtin : Builtin) (arguments : List Value) :
    Refines (runSimple builtin arguments) fun world => builtin.runSimple world arguments := by
  unfold runSimple
  split
  · next receiver key value =>
      have stored (found : Identity × Mapping) :=
        (refines_write (·.setPayload found.1 (.mapping (found.2.insert key value)))).bind
          (fun _ => refines_pure Value.none) fun _ _ _ _ _ => nofun
      refine (Refines.inspect_bind stored).congr fun world => ?_
      simp only [Builtin.runSimple, DictMethod.run]
      cases world.expectMapping receiver <;> rfl
  · next receiver item =>
      have stored (found : Identity × List Value) :=
        (refines_write (·.setPayload found.1 (.list (found.2 ++ [item])))).bind
          (fun _ => refines_pure Value.none) fun _ _ _ _ _ => nofun
      refine (Refines.inspect_bind stored).congr fun world => ?_
      simp only [Builtin.runSimple, ListMethod.run]
      cases world.expectList receiver <;> rfl
  · next target name value =>
      have assigned (name : Name) := (refines_setAttribute target name value).bind
        (fun _ => refines_pure Value.none) fun _ _ _ _ _ => nofun
      refine (Refines.inspect_bind assigned).congr fun world => ?_
      simp only [Builtin.runSimple, Introspection.run]
      cases world.attributeName name with
      | error error => rfl
      | ok name =>
          change (world.setAttribute target name value).bind _ =
            ((world.setAttribute target name value).map _).bind _
          cases world.setAttribute target name value <;> rfl
  · next target name =>
      have deleted (name : Name) := (refines_deleteAttribute target name).bind
        (fun _ => refines_pure Value.none) fun _ _ _ _ _ => nofun
      refine (Refines.inspect_bind deleted).congr fun world => ?_
      simp only [Builtin.runSimple, Introspection.run]
      cases world.attributeName name with
      | error error => rfl
      | ok name =>
          change (world.deleteAttribute target name).bind _ =
            ((world.deleteAttribute target name).map _).bind _
          cases world.deleteAttribute target name <;> rfl
  · next builtin arguments noItem noAppend noSet noDelete =>
      refine refines_reading fun world => runSimple_reads world ?_
      rintro (_ | _)
      · exact noItem _ _ _ rfl rfl
      · exact noAppend _ _ rfl rfl
      · exact noSet _ _ _ rfl rfl
      · exact noDelete _ _ rfl rfl

end Refinements

end Stepwise

end ScriptCore
