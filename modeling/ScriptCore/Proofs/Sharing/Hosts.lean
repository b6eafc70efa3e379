import ScriptCore.Proofs.Errors.Hosts
import ScriptCore.Proofs.Sharing.Runs

/-!
# Hosts and the identities they have

A host gets hold of identities only by what the runtime gives it.  Whatever it makes of
the values and errors that it has, and whatever it does with them, no identity turns up
anywhere that was not handed out before, and functions stay as they were defined.
-/

namespace ScriptCore

/-! ## Invocations -/

namespace Invocation

variable {concealed : Identity → Bool} {known : Heap}

/-- Every call from outside is blind to what it is not given. -/
theorem blind (depth : Nat) {invocation : Invocation}
    (held : invocation.All (Value.InView concealed known)) :
    (invocation.run (Machine.call depth)).Blind concealed known (Value.InView concealed) := by
  have calls : Caller.Blind concealed (Machine.call depth) := blind_call depth
  cases invocation with
  | value callee arguments => exact calls held.1 held.2
  | method receiver name arguments => exact blind_method calls name held.1 held.2
  | fast name operands => exact blind_fast calls name held

end Invocation

namespace Host

/-! ## What hosts do -/

/-- A value or an error that the host has mentions the identity. -/
def Has (host : Host) (id : Identity) : Prop :=
  (∃ value ∈ host.values, value.Mentions id) ∨ ∃ error ∈ host.errors, error.payload.Mentions id

/-- The host can make the value of what it has. -/
def CanMake (host : Host) (value : Value) : Prop := ∀ id, value.Mentions id → host.Has id

/-- The heap of the runtime. -/
abbrev heap (host : Host) : Heap := host.activation.machine.world.heap

/-- What a host may have the runtime do with values that are made of what it has. -/
inductive MayRun (host : Host) : Computation Activation Value → Prop where
  | evaluate (depth : Nat) (expr : Expr) : MayRun host (expr.eval (Machine.call depth))
  | invoke (depth : Nat) {invocation : Invocation} (made : invocation.All host.CanMake) :
      MayRun host (Activation.onMachine (invocation.run (Machine.call depth)))
  | perform (op : Operation) {operands : List Value}
      (made : ∀ operand ∈ operands, host.CanMake operand) :
      MayRun host (Activation.perform op operands)
  | define (name : Name) (declarations : List Declaration) (doc : Option String) (body : Expr)
      {defaults : List Value} (made : ∀ value ∈ defaults, host.CanMake value) :
      MayRun host (Activation.define name declarations doc body defaults)

/-- What a host may do: run something, or use values and errors that are made of what it has. -/
inductive Move : Host → Host → Prop where
  | run {host : Host} {body : Computation Activation Value} (may : host.MayRun body) :
      Move host (host.take (body.run host.activation))
  /-- Bind arguments without a call. -/
  | bind {host : Host} {function : FunctionDef} {arguments : Arguments} {bound : Bindings}
      {world : World} (shared : ∀ p ∈ function.signature.parameters, ∀ value,
        p.default = some (.shared value) → host.CanMake value)
      (made : arguments.All host.CanMake)
      (accepted : Machine.bindArguments function arguments host.activation.machine.world =
        .ok (bound, world)) :
      Move host { host with
        activation := { host.activation with machine := { host.activation.machine with world } }
        values := bound.slots.map (·.2) ++ host.values }
  | make {host : Host} {value : Value} (made : host.CanMake value) :
      Move host { host with values := value :: host.values }
  | fail {host : Host} {error : Error} (made : host.CanMake error.payload) :
      Move host (host.addError error)
  /-- Go on in a frame and a global scope of one's own. -/
  | switch {host : Host} {frame : Frame} {globals : GlobalScope}
      (locals : frame.locals.Every host.CanMake) (scope : globals.Every host.CanMake) :
      Move host { host with activation := host.activation.switch frame globals }
  | handle {host : Host} {error : Error} (index : Nat) (made : host.CanMake error.payload) :
      Move host { host with
        activation := ((Activation.enterHandler index error).run host.activation).2 }
  | finish {host : Host} :
      Move host { host with activation := (Activation.exitHandler.run host.activation).2 }

/-- The machine of the host, at rest or at some moment of a run. -/
inductive Sees (host : Host) : Machine → Prop where
  | rest : Sees host host.activation.machine
  | during {body : Computation Activation Value} {moment : Moment Activation}
      (may : host.MayRun body) (member : moment ∈ body.trail host.activation) :
      Sees host moment.state.machine

/-- The second machine is seen after the first, in the same run or whatever has been done since. -/
inductive Precedes (host : Host) : Machine → Machine → Prop where
  | rest {later : Host} {machine : Machine} (reached : Relation.ReflTransGen Move host later)
      (sees : later.Sees machine) : Precedes host host.activation.machine machine
  | within {body : Computation Activation Value} {one other : Moment Activation}
      (may : host.MayRun body) (order : [one, other].Sublist (body.trail host.activation)) :
      Precedes host one.state.machine other.state.machine
  | beyond {body : Computation Activation Value} {moment : Moment Activation} {later : Host}
      {machine : Machine} (may : host.MayRun body) (member : moment ∈ body.trail host.activation)
      (reached : Relation.ReflTransGen Move (host.take (body.run host.activation)) later)
      (sees : later.Sees machine) : Precedes host moment.state.machine machine

/-! ## Hosts keep the heap closed -/

/-- Every identity that turns up anywhere has been handed out. -/
structure Closed (host : Host) : Prop where
  activation : host.activation.Closed Identity.shown
  value : ∀ value ∈ host.values, value.InView Identity.shown host.heap
  error : ∀ error ∈ host.errors, error.InView Identity.shown host.heap

theorem closed_start (limit : Option Nat) : (start limit).Closed :=
  ⟨⟨⟨World.closed_fresh, nofun⟩, Table.every_empty⟩, nofun, nofun⟩

namespace Closed

variable {host : Host} (closed : host.Closed)

include closed

theorem of_canMake {value : Value} (made : host.CanMake value) :
    value.InView Identity.shown host.heap := by
  intro id mentioned
  rcases made id mentioned with ⟨held, member, inside⟩ | ⟨error, member, inside⟩
  · exact closed.value held member id inside
  · exact closed.error error member id inside

theorem withActivation {activation : Activation}
    (keeps : host.heap.Keeps activation.machine.world.heap)
    (after : activation.Closed Identity.shown) : Closed { host with activation } :=
  ⟨after, fun value member => (closed.value value member).mono keeps,
    fun error member => (closed.error error member).mono keeps⟩

theorem blind {body : Computation Activation Value} (may : host.MayRun body) :
    body.Blind Identity.shown host.heap (Value.InView Identity.shown) := by
  have use {value : Value} (made : host.CanMake value) := closed.of_canMake made
  cases may with
  | evaluate depth expr => exact blind_eval (blind_call depth) expr
  | invoke depth made => exact blind_onMachine (Invocation.blind depth (made.imp fun _ => use))
  | perform op made => exact blind_perform op fun operand member => use (made operand member)
  | define name declarations doc body made =>
      exact blind_define name declarations doc body fun value member => use (made value member)

/-- What a run leads to, and what comes out of it. -/
theorem take {body : Computation Activation Value} (may : host.MayRun body) :
    (host.take (body.run host.activation)).Closed ∧
      (body.run host.activation).2.machine.world.heap =
        (host.take (body.run host.activation)).heap := by
  have ran := closed.blind may host.activation closed.activation (.refl _)
  have last := ran.last
  have keeps := ran.keeps
  have outcome := ran.outcome
  generalize body.run host.activation = ended at last keeps outcome
  obtain ⟨result, after⟩ := ended
  have kept := closed.withActivation keeps last
  cases result with
  | value value =>
      exact ⟨{ kept with value := List.forall_mem_cons.mpr ⟨outcome, kept.value⟩ }, rfl⟩
  | raised error =>
      exact ⟨{ kept with error := List.forall_mem_cons.mpr ⟨outcome, kept.error⟩ }, rfl⟩
  | broken defect => exact ⟨kept, rfl⟩
  | outOfFuel => exact ⟨kept, rfl⟩

theorem move {next : Host} (move : Move host next) :
    next.Closed ∧ host.heap.Keeps next.heap := by
  have use {value : Value} (made : host.CanMake value) := closed.of_canMake made
  cases move with
  | run may =>
      have ran := closed.blind may host.activation closed.activation (.refl _)
      obtain ⟨after, heap⟩ := closed.take may
      exact ⟨after, heap ▸ ran.keeps⟩
  | bind shared made accepted =>
      have world := closed.activation.machine.world
      have bound := (world.bindArguments
        (fun p member value default => use (shared p member value default))
        (made.imp fun _ => use)).value _ accepted
      have machine := closed.activation.machine.withWorld bound.keeps bound.world
      have kept := closed.withActivation bound.keeps
        (closed.activation.withMachine bound.keeps machine)
      refine ⟨{ kept with value := List.forall_mem_append.mpr ⟨?_, kept.value⟩ }, bound.keeps⟩
      exact List.forall_mem_map.mpr bound.slots
  | make made =>
      exact ⟨{ closed with value := List.forall_mem_cons.mpr ⟨use made, closed.value⟩ }, .refl _⟩
  | fail made =>
      exact ⟨{ closed with error := List.forall_mem_cons.mpr ⟨use made, closed.error⟩ }, .refl _⟩
  | switch locals scope =>
      have world := closed.activation.machine.world.withGlobals (scope.mono fun _ => use)
      exact ⟨closed.withActivation (.refl _)
        ⟨closed.activation.machine.withWorld (.refl _) world, locals.mono fun _ => use⟩, .refl _⟩
  | handle index made =>
      have entered := blind_enterHandler index (use made) host.activation closed.activation
        (.refl _)
      exact ⟨closed.withActivation entered.keeps entered.last, entered.keeps⟩
  | finish =>
      have blind : Activation.exitHandler.Blind Identity.shown host.heap fun _ _ => True :=
        blind_exitHandler
      have exited := blind host.activation closed.activation (.refl _)
      exact ⟨closed.withActivation exited.keeps exited.last, exited.keeps⟩

/-- Whatever a host does from here on, all stays closed and functions stay defined. -/
theorem reached {later : Host} (reached : Relation.ReflTransGen Move host later) :
    later.Closed ∧ host.heap.Keeps later.heap := by
  induction reached with
  | refl => exact ⟨closed, .refl _⟩
  | tail _ move ih =>
      have next := ih.1.move move
      exact ⟨next.1, ih.2.trans next.2⟩

theorem sees {machine : Machine} (sees : host.Sees machine) :
    machine.Closed Identity.shown ∧ host.heap.Keeps machine.world.heap := by
  cases sees with
  | rest => exact ⟨closed.activation.machine, .refl _⟩
  | during may member =>
      have shown := (closed.blind may host.activation closed.activation (.refl _)).moment _ member
      exact ⟨Activation.Closed.machine shown.closed, shown.since⟩

theorem keeps_of_reached {later : Host} {machine : Machine}
    (reached : Relation.ReflTransGen Move host later) (sees : later.Sees machine) :
    host.heap.Keeps machine.world.heap :=
  have after := closed.reached reached
  after.2.trans (after.1.sees sees).2

/-- Later machines keep the heaps of earlier ones. -/
theorem precedes {first second : Machine} (precedes : host.Precedes first second) :
    first.world.heap.Keeps second.world.heap := by
  cases precedes with
  | rest reached sees => exact closed.keeps_of_reached reached sees
  | within may order =>
      have ran := closed.blind may host.activation closed.activation (.refl _)
      have both := List.Pairwise.sublist order ran.ordered
      exact List.rel_of_pairwise_cons both List.mem_cons_self
  | beyond may member reached sees =>
      have ran := closed.blind may host.activation closed.activation (.refl _)
      obtain ⟨after, heap⟩ := closed.take may
      have further := after.keeps_of_reached reached sees
      rw [← heap] at further
      exact (ran.moment _ member).ends.trans further

end Closed

end Host

end ScriptCore
