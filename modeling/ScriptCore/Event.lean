import ScriptCore.Value

/-!
# Events

An event is one thing that happens during a run: a change of the state, an
error that comes up, a function or a handler that is entered or left.  The
trail of a run lists its events in order, each with the state right after it.
-/

namespace ScriptCore

/-- Something that happens during a run. -/
inductive Event where
  /-- Values, types or names may have changed. -/
  | change
  /-- An error comes up here. -/
  | raise (error : Error)
  /-- A function is on the call stack now. -/
  | enter (name : Name)
  /-- The call stack has no room for the function. -/
  | refuse (name : Name)
  /-- The function is off the call stack again. -/
  | leave (name : Name)
  /-- The clauses of a try region are asked about the error. -/
  | select (error : Error)
  /-- The handler with this number has the error now. -/
  | handle (index : Nat) (error : Error)
  /-- The innermost handler has ended. -/
  | finish
  /-- The host has the error now. -/
  | receive (error : Error)

/-- An event of a run with the state right after it. -/
structure Moment (σ : Type) where
  event : Event
  state : σ

namespace Moment

variable {σ τ : Type}

/-- The same event seen in another state. -/
def map (view : σ → τ) (moment : Moment σ) : Moment τ :=
  ⟨moment.event, view moment.state⟩

end Moment

end ScriptCore
