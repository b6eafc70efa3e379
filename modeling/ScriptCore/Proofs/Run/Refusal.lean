import ScriptCore.Proofs.Run.Interpreter
import ScriptCore.Proofs.Run.Reentry
import ScriptCore.Proofs.World.Stepwise

/-!
# Failing operations change nothing

A call that is refused before any body has been entered has put functions on the call
stack and taken them off again, and it may have made instances and defaults that nobody
has.  Nothing else is left of it, and nothing at all of any other operation that fails.
-/

namespace ScriptCore

/-- Nothing that was there before is different, in the frame or in the machine. -/
structure Activation.Untouched (before after : Activation) : Prop where
  frame : after.frame = before.frame
  calls : after.machine.calls = before.machine.calls
  handling : after.machine.handling = before.machine.handling
  world : before.machine.world.Untouched after.machine.world

namespace Run

/-- A call that comes to the body of a function. -/
inductive Enters : Value → Arguments → Machine → Prop where
  /-- There is room for the function, and its arguments fit. -/
  | function {callee : Value} {arguments given : Arguments} {machine : Machine} {id : Identity}
      {function : FunctionDef} {calls : CallStack} {bound : Bindings} {world : World} {body : Expr}
      (unbound : Machine.unbind callee arguments = (.function id, given))
      (defined : machine.world.heap.functions.get? id = some function)
      (pushed : machine.calls.push function.name = .ok calls)
      (fits : Machine.bindArguments function given machine.world = .ok (bound, world))
      (found : world.body? function.body = some (.user body)) : Enters callee arguments machine
  /-- A native function accepts the number of its arguments. -/
  | native {callee : Value} {arguments given : Arguments} {machine : Machine} {native : Native}
      {builtin : Builtin} (unbound : Machine.unbind callee arguments = (.native native, given))
      (accepted : Machine.nativeBody native given machine.world = .ok builtin) :
      Enters callee arguments machine
  /-- A class calls its `__init__` on the new instance. -/
  | init {callee : Value} {arguments given : Arguments} {machine : Machine} {type : TypeId}
      {init : Value} (unbound : Machine.unbind callee arguments = (.type type, given))
      (notError : machine.world.types.isSubtype type .exception = false)
      (user : type.isBuiltin = false)
      (defined : machine.world.types.resolve type "__init__" = some init)
      (within : Enters (.boundMethod (machine.world.heap.newInstance type).1 init) given
        (withInstance machine type)) : Enters callee arguments machine

/-! ## Runs that leave nothing when they fail -/

/-- Where the run from here raises an error, it leaves the world untouched. -/
def Harmless {α : Type} (body : Computation Machine α) (machine : Machine) : Prop :=
  ∀ error last, body.run machine = (.raised error, last) → machine.world.Untouched last.world

section Harmless

variable {α β : Type} {body : Computation Machine α} {next : α → Computation Machine β}
  {machine : Machine}

theorem harmless_pure (a : α) : Harmless (.pure a) machine :=
  fun _ _ raised => nomatch raised

theorem harmless_inspect (look : Machine → Except Error α) :
    Harmless (.inspect look) machine := by
  intro error last raised
  cases congrArg Prod.snd raised
  exact .refl _

theorem harmless_update (step : World → Except Error (α × World)) :
    Harmless (Machine.update step) machine := by
  intro error last raised
  simp only [Machine.update, Computation.update] at raised
  cases stepped : step machine.world with
  | ok made =>
      rw [stepped] at raised
      cases raised
  | error reason =>
      rw [stepped] at raised
      cases raised
      exact .refl _

/-- What comes next fails only where the world is still untouched, or it fails never. -/
theorem Harmless.before (first : Harmless body machine)
    (second : ∀ a middle error last, body.run machine = (.value a, middle) →
      (next a).run middle = (.raised error, last) → machine.world.Untouched last.world) :
    Harmless (body >>= next) machine := by
  intro error last raised
  cases ended : body.run machine with
  | mk outcome middle =>
      cases outcome with
      | value a =>
          rw [Computation.run_bind_of_value ended] at raised
          exact second a middle error last ended raised
      | raised reason =>
          rw [Computation.run_bind_of_raised ended] at raised
          cases congrArg Prod.snd raised
          exact first reason _ ended
      | broken defect =>
          change ((Computation.bind body next).run machine) = _ at raised
          simp only [Computation.bind, ended] at raised
          cases raised
      | outOfFuel =>
          rw [Computation.run_bind_of_outOfFuel ended] at raised
          cases raised

/-- What comes first leaves the world untouched also where it gives a value. -/
theorem Harmless.bind (first : Harmless body machine)
    (second : ∀ a middle, body.run machine = (.value a, middle) →
      machine.world.Untouched middle.world ∧ Harmless (next a) middle) :
    Harmless (body >>= next) machine :=
  first.before fun a middle error last gave raised =>
    (second a middle gave).1.trans ((second a middle gave).2 error last raised)

/-- A look at the machine leaves it as it is. -/
theorem harmless_inspect_bind {look : Machine → Except Error α}
    (second : ∀ a, look machine = .ok a → Harmless (next a) machine) :
    Harmless (.inspect look >>= next) machine := by
  refine (harmless_inspect look).bind fun a middle gave => ?_
  obtain ⟨found, rfl⟩ := inspect_eq_value gave
  exact ⟨.refl _, second a found⟩

/-- A function is left in the world in which its body has ended. -/
theorem harmless_within {name : Name} {body : Computation Machine Value}
    (composed : Composed id body)
    (inner : ∀ calls, machine.calls.push name = .ok calls → Harmless body { machine with calls }) :
    Harmless (Machine.within name body) machine := by
  intro error last raised
  cases pushed : machine.calls.push name with
  | error reason =>
      rw [(within_of_refused body pushed).1] at raised
      cases raised
      exact .refl _
  | ok calls =>
      have lawful := composed.sound { machine with calls }
      rcases lawful.exists_result with ⟨result, ended⟩ | ended
      · have fueled : Outcome.ofExcept result ≠ .outOfFuel := by cases result <;> exact nofun
        have same := lawful.calls (by rw [ended]; exact fueled)
        rw [(within_of_result pushed ended same).1] at raised
        cases result with
        | ok value => cases raised
        | error reason =>
            have left := inner calls pushed reason _ ended
            cases raised
            exact left
      · rw [(within_of_outOfFuel pushed ended).1] at raised
        cases raised

end Harmless

/-! ## Calls that are refused -/

section Calls

variable {callee : Value} {arguments given : Arguments} {machine : Machine}

theorem untouched_bindArguments (function : FunctionDef) (arguments : Arguments) (world : World) :
    Gives (world.Untouched ·.2) (Machine.bindArguments function arguments world) := by
  unfold Machine.bindArguments
  rw [Binding.bind_eq]
  split
  · exact gives_error _
  · exact gives_ok.mpr (World.untouched_of_extends (Binding.bound_extends _))

/-- A step that gives a value has changed the world as it says. -/
theorem update_eq_value {α : Type} {step : World → Except Error (α × World)} {a : α}
    {middle : Machine} (gave : (Machine.update step).run machine = (.value a, middle)) :
    ∃ world, step machine.world = .ok (a, world) ∧ middle = { machine with world } := by
  simp only [Machine.update, Computation.update] at gave
  cases stepped : step machine.world with
  | error error =>
      rw [stepped] at gave
      cases gave
  | ok made =>
      rw [stepped] at gave
      cases gave
      exact ⟨_, rfl, rfl⟩

theorem harmless_callFunction (call : Caller)
    (composed : ∀ callee arguments, Composed id (call callee arguments)) {id : Identity}
    {function : FunctionDef} (unbound : Machine.unbind callee arguments = (.function id, given))
    (defined : machine.world.heap.functions.get? id = some function)
    (refused : ¬ Enters callee arguments machine) :
    Harmless (Machine.callFunction call function given) machine := by
  refine harmless_within (composed_runBody composed function given) fun calls pushed => ?_
  refine (harmless_update _).bind fun bound middle gave => ?_
  obtain ⟨world, fits, rfl⟩ := update_eq_value gave
  refine ⟨untouched_bindArguments function given _ _ fits, ?_⟩
  refine harmless_inspect_bind fun body found => ?_
  split at found
  · next known => exact absurd (.function unbound defined pushed fits known) refused
  · cases found

theorem harmless_callNative (call : Caller) {native : Native}
    (unbound : Machine.unbind callee arguments = (.native native, given))
    (refused : ¬ Enters callee arguments machine) :
    Harmless (Machine.callNative call native given) machine :=
  harmless_inspect_bind fun _ accepted => absurd (.native unbound accepted) refused

/-- A type that makes errors or converts values changes nothing where it fails. -/
theorem harmless_construct (call : Caller)
    (calls : ∀ callee arguments machine, ¬ Enters callee arguments machine →
      Harmless (call callee arguments) machine) {type : TypeId}
    (unbound : Machine.unbind callee arguments = (.type type, given))
    (refused : ¬ Enters callee arguments machine) :
    Harmless (Machine.construct call type given) machine := by
  refine harmless_inspect_bind fun same found => ?_
  cases found
  split
  · exact harmless_update _
  · next notError =>
      split
      · exact harmless_update _
      · next user =>
          refine (harmless_update _).bind fun value middle made => ?_
          cases made
          refine ⟨World.untouched_of_extends (Heap.newObject_extends _ type .plain), ?_⟩
          refine harmless_inspect_bind fun init defined => ?_
          cases init with
          | none => exact harmless_pure _
          | some init =>
              have within := calls (.boundMethod (machine.world.heap.newInstance type).1 init) given
                (withInstance machine type) fun enters =>
                  refused (.init unbound (Bool.eq_false_iff.mpr notError)
                    (Bool.eq_false_iff.mpr user) (Except.ok.inj defined) enters)
              exact within.before fun _ _ _ _ _ raised => nomatch raised

theorem harmless_callUnbound (call : Caller)
    (composed : ∀ callee arguments, Composed id (call callee arguments))
    (calls : ∀ callee arguments machine, ¬ Enters callee arguments machine →
      Harmless (call callee arguments) machine) {target : Value}
    (unbound : Machine.unbind callee arguments = (target, given))
    (refused : ¬ Enters callee arguments machine) :
    Harmless (Machine.callUnbound call target given) machine := by
  unfold Machine.callUnbound
  split
  · refine harmless_inspect_bind fun function found => ?_
    split at found
    · next defined =>
        cases found
        exact harmless_callFunction call composed unbound defined refused
    · cases found
  · exact harmless_callNative call unbound refused
  · exact harmless_construct call calls unbound refused
  · exact harmless_inspect _

/-- A call that comes to no body leaves the world untouched where it fails. -/
theorem harmless_call (depth : Nat) (callee : Value) (arguments : Arguments) (machine : Machine)
    (refused : ¬ Enters callee arguments machine) :
    Harmless (Machine.call depth callee arguments) machine := by
  -- A class may be initialised by calling a class, and so on as deep as calls may be nested.
  induction depth generalizing callee arguments machine with
  | zero => exact fun _ _ raised => nomatch raised
  | succ depth ih => exact harmless_callUnbound _ (composed_call depth) ih rfl refused

theorem untouched_call {depth : Nat} {activation last : Activation} {error : Error}
    (raised : (Activation.onMachine (Machine.call depth callee arguments)).run activation =
      (.raised error, last))
    (refused : ¬ Enters callee arguments activation.machine) : activation.Untouched last := by
  have lawful := (composed_call depth callee arguments).sound activation.machine
  have fueled : Outcome.raised error ≠ (.outOfFuel : Outcome Value) := nofun
  cases ended : (Machine.call depth callee arguments).run activation.machine with
  | mk outcome machine =>
      have same : (outcome, { activation with machine }) = (.raised error, last) := by
        rw [← raised, Activation.onMachine]
        simp only [Computation.onPart, ended]
      cases same
      rw [ended] at lawful
      exact ⟨rfl, lawful.calls fueled, lawful.handling fueled,
        harmless_call depth callee arguments activation.machine refused error machine ended⟩

end Calls

/-! ## Operations that fail -/

/--
A failing operation changes nothing.  Attributes, definitions, bindings and built-in
functions do step by step what they do at once, and leave no trace where they fail; nor
does a call that is refused before any body is entered.  What is new nobody can get at.
-/
theorem failure_changes_nothing :
    (∀ target name value,
      Stepwise.Refines (Stepwise.setAttribute target name value) fun world =>
        (world.setAttribute target name value).map ((), ·)) ∧
    (∀ target name,
      Stepwise.Refines (Stepwise.deleteAttribute target name) fun world =>
        (world.deleteAttribute target name).map ((), ·)) ∧
    (∀ name parameters doc body,
      Stepwise.Refines (Stepwise.defineFunction name parameters doc body) fun world =>
        world.defineFunction name parameters doc body) ∧
    (∀ function arguments,
      Stepwise.Refines (Stepwise.bindArguments function arguments)
        (Machine.bindArguments function arguments)) ∧
    (∀ builtin arguments,
      Stepwise.Refines (Stepwise.runSimple builtin arguments) fun world =>
        builtin.runSimple world arguments) ∧
    (∀ depth callee arguments (activation last : Activation) error,
      (Activation.onMachine (Machine.call depth callee arguments)).run activation =
        (.raised error, last) →
      ¬ Enters callee arguments activation.machine → activation.Untouched last) ∧
    (∀ before after : World, before.Untouched after → ∀ held : Value → Prop,
      (∀ value, before.Reachable held value →
        ∀ id ∈ value.identity?, id.index < before.heap.next) →
      ∀ value, after.Reachable held value → before.Reachable held value) :=
  ⟨Stepwise.refines_setAttribute, Stepwise.refines_deleteAttribute, Stepwise.refines_defineFunction,
    Stepwise.refines_bindArguments, Stepwise.refines_runSimple,
    fun _ _ _ _ _ _ raised refused => untouched_call raised refused,
    fun _ _ untouched _ handedOut _ reachable => untouched.reachable handedOut reachable⟩

/-- An activation that knows a class `C` whose instances cannot be initialised. -/
def uninitialisable : Activation where
  frame := { function := "" }
  machine := { world := (World.bare.defineClass "C" none [("__init__", .none)]).2, calls := {} }

theorem uninitialisable_refuses : ¬ Enters (.type ⟨25⟩) {} uninitialisable.machine := by
  intro enters
  cases enters with
  | function unbound => cases unbound
  | native unbound => cases unbound
  | init unbound _ _ defined within =>
      cases unbound
      cases defined
      cases within with
      | function unbound => cases unbound
      | native unbound => cases unbound
      | init unbound => cases unbound

/-- Whoever holds the class can get at types and at what should initialise it. -/
theorem uninitialisable_reachable {value : Value}
    (reachable : uninitialisable.machine.world.Reachable (· = .type ⟨25⟩) value) :
    value = .none ∨ ∃ type, value = .type type := by
  induction reachable with
  | held has => exact .inr ⟨_, has⟩
  | global bound => cases bound
  | @builtin name value bound =>
      have distinct : (TypeId.builtins.map (·.2.1)).Nodup := by decide
      have listed : uninitialisable.machine.world.builtins.entries =
          TypeId.builtins.map fun type => (type.2.1, .type type.1) :=
        Table.entries_setAll distinct
      have member := Table.mem_of_lookup bound
      rw [listed] at member
      obtain ⟨⟨type, _⟩, _, same⟩ := List.mem_map.mp member
      exact .inr ⟨type, (congrArg Prod.snd same).symm⟩
  | @capability type name value defined =>
      have set : ((Registry.builtin.register "C" .object).2.setCapability ⟨25⟩ "__init__"
          .none).ownCapability type name = some value := defined
      rw [Registry.ownCapability_setCapability, Registry.ownCapability_register,
        Registry.ownCapability_builtin] at set
      split at set
      · exact .inl (Option.some_inj.mp set).symm
      · cases set
  | item _ _ ih | receiver _ ih | method _ ih | payload _ ih | content _ _ ih
  | objectAttribute _ _ ih | functionAttribute _ _ ih | default _ _ _ _ ih =>
      rcases ih with same | ⟨_, same⟩ <;> cases same

/-- The new instance is on the heap, and nobody can get at it. -/
theorem failure_changes_nothing_uninitialisable :
    ∃ error last, (Activation.onMachine (Machine.call 2 (.type ⟨25⟩) {})).run uninitialisable =
        (.raised error, last) ∧
      uninitialisable.Untouched last ∧
      uninitialisable.machine.world.heap.next = 0 ∧ last.machine.world.heap.next = 1 ∧
      ∀ value, last.machine.world.Reachable (· = .type ⟨25⟩) value → value.identity? = none := by
  obtain ⟨_, _, _, _, _, calls, reach⟩ := failure_changes_nothing
  refine ⟨_, _, rfl, ?_⟩
  have untouched := calls 2 (.type ⟨25⟩) {} uninitialisable _ _ rfl uninitialisable_refuses
  have known {value : Value}
      (reachable : uninitialisable.machine.world.Reachable (· = .type ⟨25⟩) value) :
      value.identity? = none := by
    rcases uninitialisable_reachable reachable with rfl | ⟨type, rfl⟩ <;> rfl
  refine ⟨untouched, rfl, rfl, fun value reachable => known ?_⟩
  refine reach _ _ untouched.world _ ?_ value reachable
  intro other held id identified
  rw [known held] at identified
  cases identified

end Run

end ScriptCore
