import ScriptCore.Proofs.Attributes.Inheritance
import ScriptCore.Proofs.Run.Surroundings
import ScriptCore.Proofs.World.Bodies

/-!
# Runs that enter no user function

Native functions and types put nothing on the call stack when they are called, nor does a
user function for which there is no room.  Nothing that they do registers a type or moves
one, so all walks from a type to its parents stay as they were.
-/

namespace ScriptCore

namespace Run

/-- No user function is entered on the way. -/
def Frameless {α : Type} (body : Computation Machine α) (machine : Machine) : Prop :=
  ∀ moment ∈ body.trail machine, ∀ name, moment.event ≠ .enter name

section Sequences

variable {α β : Type} {body other : Computation Machine α} {next : α → Computation Machine β}
  {machine middle : Machine}

theorem Frameless.of_agree (frameless : Frameless body machine) (agree : body.Agree other machine) :
    Frameless other machine := by
  rw [Frameless, ← agree.2]
  exact frameless

theorem Frameless.of_bind (frameless : Frameless (body >>= next) machine) :
    Frameless body machine :=
  fun moment member => frameless moment ((Computation.trail_prefix_bind body next machine).mem
    member)

theorem Frameless.after_value {a : α} (frameless : Frameless (body >>= next) machine)
    (gave : body.run machine = (.value a, middle)) : Frameless (next a) middle := by
  rw [Frameless, Computation.trail_bind_of_value gave] at frameless
  exact fun moment member => frameless moment (List.mem_append_right _ member)

end Sequences

/-- A function that is entered is seen on the trail. -/
theorem not_frameless_within {name : Name} {body : Computation Machine Value} {machine : Machine}
    {calls : CallStack} (pushed : machine.calls.push name = .ok calls) :
    ¬Frameless (Machine.within name body) machine := by
  intro frameless
  have entered : Frameless (Machine.enter name) machine := frameless.of_bind
  rw [Frameless, (Machine.enter_of_ok pushed).2] at entered
  exact entered _ List.mem_cons_self name rfl

/-! ## Parents -/

/-- In all machines of the run the types have the parents that they had. -/
structure ParentsStay {α : Type} (body : Computation Machine α) (machine : Machine) : Prop where
  within : ∀ moment ∈ body.trail machine,
    machine.world.types.SameParents moment.state.world.types
  last : machine.world.types.SameParents (body.run machine).2.world.types

/-- Wherever no user function is entered, the parents stay. -/
def Unmoving {α : Type} (body : Computation Machine α) : Prop :=
  ∀ machine, Frameless body machine → ParentsStay body machine

section Closure

variable {α β : Type}

theorem unmoving_pure (a : α) : Unmoving (.pure a) := fun _ _ => ⟨List.forall_mem_nil _, .refl _⟩

theorem unmoving_exhausted : Unmoving (.exhausted : Computation Machine α) :=
  fun _ _ => ⟨List.forall_mem_nil _, .refl _⟩

theorem unmoving_inspect (look : Machine → Except Error α) : Unmoving (.inspect look) := by
  intro machine _
  refine ⟨?_, .refl _⟩
  simp only [Computation.inspect]
  cases look machine with
  | ok a => exact List.forall_mem_nil _
  | error error => exact List.forall_mem_singleton.mpr (.refl _)

theorem unmoving_update {step : World → Except Error (α × World)}
    (remains : ∀ world, Gives (world.Remains ·.2) (step world)) :
    Unmoving (Machine.update step) := by
  intro machine _
  have kept := remains machine.world
  cases stepped : step machine.world with
  | ok made =>
      have same := (kept made stepped).parents
      refine ⟨?_, ?_⟩
      · simp only [Machine.update, Computation.update, stepped, Except.map]
        exact List.forall_mem_singleton.mpr same
      · simp only [Machine.update, Computation.update, stepped, Except.map]
        exact same
  | error error =>
      refine ⟨?_, ?_⟩
      · simp only [Machine.update, Computation.update, stepped, Except.map]
        exact List.forall_mem_singleton.mpr (.refl _)
      · simp only [Machine.update, Computation.update, stepped, Except.map]
        exact .refl _

theorem Unmoving.bind {body : Computation Machine α} {next : α → Computation Machine β}
    (first : Unmoving body) (second : ∀ a, Unmoving (next a)) : Unmoving (body >>= next) := by
  intro machine frameless
  have before := first machine frameless.of_bind
  by_cases gives : ∃ a, (body.run machine).1 = .value a
  · obtain ⟨a, gave⟩ := gives
    have ended : body.run machine = (.value a, (body.run machine).2) := Prod.ext gave rfl
    have after := second a _ (frameless.after_value ended)
    refine ⟨?_, ?_⟩
    · rw [Computation.trail_bind_of_value ended]
      refine List.forall_mem_append.mpr ⟨before.within, fun moment member => ?_⟩
      exact before.last.trans (after.within moment member)
    · rw [Computation.run_bind_of_value ended]
      exact before.last.trans after.last
  · have stopped := not_exists.mp gives
    refine ⟨?_, ?_⟩
    · rw [Computation.trail_bind_of_ne_value stopped]
      exact before.within
    · rw [Computation.state_bind_of_ne_value stopped]
      exact before.last

/-- A user function is not entered only if there is no room for it. -/
theorem unmoving_within (name : Name) (body : Computation Machine Value) :
    Unmoving (Machine.within name body) := by
  intro machine frameless
  cases pushed : machine.calls.push name with
  | ok calls => exact absurd frameless (not_frameless_within pushed)
  | error error =>
      obtain ⟨run, trail⟩ := within_of_refused body pushed
      refine ⟨?_, ?_⟩
      · rw [trail]
        exact List.forall_mem_cons.mpr ⟨.refl _, List.forall_mem_singleton.mpr (.refl _)⟩
      · rw [run]
        exact .refl _

end Closure

section Calls

variable {call : Caller} (calls : ∀ callee arguments, Unmoving (call callee arguments))

include calls

theorem unmoving_length (value : Value) : Unmoving (Machine.length call value) := by
  unfold Machine.length
  split
  · exact unmoving_pure _
  · exact unmoving_pure _
  · refine .bind (.bind (unmoving_inspect _) fun found => calls found {}) fun result => ?_
    split
    · exact unmoving_pure _
    · exact unmoving_inspect _

theorem unmoving_total (start : Value) (items : List Value) :
    Unmoving (Machine.total call start items) := by
  induction items generalizing start with
  | nil => exact unmoving_pure start
  | cons item rest ih => exact .bind (.bind (unmoving_inspect _) fun found => calls found _) ih

theorem unmoving_runNative (builtin : Builtin) (arguments : List Value) :
    Unmoving (Machine.runNative call builtin arguments) := by
  unfold Machine.runNative
  split
  · exact unmoving_length calls _
  · exact unmoving_inspect _
  · exact .bind (unmoving_inspect _) (unmoving_total calls _)
  · exact .bind (unmoving_inspect _) (unmoving_total calls _)
  · exact unmoving_inspect _
  · exact unmoving_update fun world => world.remains_runSimple _ _

theorem unmoving_construct (type : TypeId) (arguments : Arguments) :
    Unmoving (Machine.construct call type arguments) := by
  refine .bind (unmoving_inspect _) fun machine => ?_
  split
  · refine unmoving_update fun world => ?_
    split
    · exact gives_error _
    · exact gives_ok.mpr (by simp)
  · split
    · exact unmoving_update fun world => by simp [World.remains_convert]
    · refine .bind (unmoving_update fun world => gives_ok.mpr (by simp)) fun value =>
        .bind (unmoving_inspect _) fun init => ?_
      cases init with
      | some init => exact .bind (calls _ _) fun _ => unmoving_pure _
      | none => exact unmoving_pure _

theorem unmoving_callUnbound (callee : Value) (arguments : Arguments) :
    Unmoving (Machine.callUnbound call callee arguments) := by
  unfold Machine.callUnbound
  split
  · exact .bind (unmoving_inspect _) fun function => unmoving_within _ _
  · exact .bind (unmoving_inspect _) fun builtin => unmoving_runNative calls builtin _
  · exact unmoving_construct calls _ arguments
  · exact unmoving_inspect _

end Calls

theorem unmoving_call (depth : Nat) (callee : Value) (arguments : Arguments) :
    Unmoving (Machine.call depth callee arguments) := by
  induction depth generalizing callee arguments with
  | zero => exact unmoving_exhausted
  | succ depth ih => exact unmoving_callUnbound ih _ _

/-! ## Walks -/

/-- All walks from a type to its parents end, and questions about the type see all of them. -/
def WalksEnd (types : Registry) : Prop :=
  ∀ type, ∃ chain, Registry.Chain types type chain ∧
    (types.contains type = true → types.ancestors type = chain)

/-- Where walks end at the start of a frameless call they end in all machines on its way. -/
theorem walksEnd_of_frameless {depth : Nat} {callee : Value} {arguments : Arguments}
    {start : Machine}
    (ends : ∀ type, ∃ chain, Registry.Chain start.world.types type chain)
    (frameless : Frameless (Machine.call depth callee arguments) start) :
    ∀ machine ∈ start :: ((Machine.call depth callee arguments).trail start).map (·.state),
      WalksEnd machine.world.types := by
  have kept := (unmoving_call depth callee arguments start frameless).within
  have walksEnd {types : Registry} (same : start.world.types.SameParents types) :
      WalksEnd types := by
    intro type
    obtain ⟨chain, walk⟩ := ends type
    have later := walk.of_sameParents same
    exact ⟨chain, later, later.ancestors_eq⟩
  refine List.forall_mem_cons.mpr ⟨walksEnd (.refl _), fun machine member => ?_⟩
  obtain ⟨moment, inside, rfl⟩ := List.mem_map.mp member
  exact walksEnd (kept moment inside)

end Run

end ScriptCore
