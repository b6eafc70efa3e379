import ScriptCore.Proofs.Run.Interpreter

/-!
# Calls and try regions are balanced

A call or a region that comes to an end has left every function and every
handler that it has entered, however it ends, and no moment of it has more
running functions than the limit allows.
-/

namespace ScriptCore.Run

/-- A run that leaves what it enters, keeps to the limit and breaks no assertion. -/
structure Balanced {σ α : Type} (view : σ → Machine) (body : Computation σ α) (start : σ) :
    Prop where
  /-- Whether it ends with a value or with an error, calls and handled errors are as before. -/
  restored : ∀ result last, body.run start = (.ofExcept result, last) →
    (view last).calls = (view start).calls ∧ (view last).handling = (view start).handling
  /-- The machine changes by the events of the trail, and in no other way. -/
  path : Path ⟨view start, none⟩ ((body.trail start).map (·.map view))
    ⟨view (body.run start).2, (body.run start).1.error?⟩
  /-- The limit stays what it is, and no moment exceeds it. -/
  limit : ∀ moment ∈ body.trail start,
    (view moment.state).calls.limit = (view start).calls.limit
  depth : ∀ moment ∈ body.trail start, ∀ most ∈ (view start).calls.limit,
    (view moment.state).calls.depth ≤ most
  unbroken : ∀ defect, (body.run start).1 ≠ .broken defect

theorem Sound.balanced {σ α : Type} {view : σ → Machine} {body : Computation σ α}
    (sound : Sound view body) (start : σ) : Balanced view body start := by
  have lawful := sound start
  have seen {moment : Moment σ} (member : moment ∈ body.trail start) :
      moment.map view ∈ (body.trail start).map (·.map view) :=
    List.mem_map.mpr ⟨moment, member, rfl⟩
  refine ⟨?_, lawful.path, ?_, ?_, lawful.unbroken⟩
  · intro result last ended
    rw [ended] at lawful
    have fueled : Outcome.ofExcept result ≠ .outOfFuel := by cases result <;> exact nofun
    exact ⟨lawful.calls fueled, lawful.handling fueled⟩
  · intro moment member
    exact lawful.path.limit_eq _ (seen member)
  · intro moment member most bound
    exact lawful.path.depth_le (seen member) bound

/--
Calls of any value are balanced from every state.  So are functions and try
regions whose bodies and handlers are composed in any way of calls, regions,
raises and changes of the world.
-/
theorem calls_and_regions_balanced :
    (∀ depth callee arguments machine,
      Balanced id (Machine.call depth callee arguments) machine) ∧
    (∀ name (body : Computation Machine Value), Composed id body →
      ∀ machine, Balanced id (Machine.within name body) machine) ∧
    (∀ clauses (body : Computation Activation Value) handlers,
      Composed Activation.machine body →
      (∀ index error, Composed Activation.machine (handlers index error)) →
      ∀ activation,
        Balanced Activation.machine (Activation.guarded clauses body handlers) activation) := by
  refine ⟨?_, ?_, ?_⟩
  · intro depth callee arguments machine
    exact (composed_call depth callee arguments).sound.balanced machine
  · intro name body inner machine
    exact (Composed.within inner).sound.balanced machine
  · intro clauses body handlers inner guards activation
    exact (Composed.guarded inner guards).sound.balanced activation

/-- A region around a failing function whose handler raises the error again. -/
def failingAgain : Computation Activation Value :=
  Activation.guarded [.bare] (Activation.onMachine failing) fun _ error => .raise error

theorem calls_and_regions_balanced_failing :
    Balanced id failing (.fresh { limit := some 1 }) ∧
      Balanced Activation.machine failingAgain (Session.start (some 1)) := by
  refine ⟨?_, ?_⟩
  · exact calls_and_regions_balanced.2.1 "f" _ (.inspect _) _
  · exact calls_and_regions_balanced.2.2 [.bare] _ _ (composed_onMachine composed_failing)
      (fun _ error => .inspect fun _ => .error error) _

end ScriptCore.Run
