import ScriptCore.Machine
import ScriptCore.Event

/-!
# Transitions of a running machine

Each event stands for one transition of the machine.  While an error is in
flight only unwinding happens: functions are left, clauses are asked, handlers
end.  It lands where a handler or the host takes it.
-/

namespace ScriptCore.Run

/-- A machine and the error that is in flight, if there is one. -/
structure Status where
  machine : Machine
  flight : Option Error

/-- What an event does to a machine. -/
inductive Step : Status → Event → Status → Prop where
  | change {machine next : Machine} (calls : next.calls = machine.calls)
      (handling : next.handling = machine.handling) : Step ⟨machine, none⟩ .change ⟨next, none⟩
  | raise {machine : Machine} (error : Error) :
      Step ⟨machine, none⟩ (.raise error) ⟨machine, some error⟩
  | enter {machine : Machine} {name : Name} {calls : CallStack}
      (pushed : machine.calls.push name = .ok calls) :
      Step ⟨machine, none⟩ (.enter name) ⟨{ machine with calls }, none⟩
  | refuse {machine : Machine} {name : Name} {error : Error}
      (refused : machine.calls.push name = .error error) :
      Step ⟨machine, none⟩ (.refuse name) ⟨machine, none⟩
  | leave {machine : Machine} {name : Name} {calls : CallStack} {flight : Option Error}
      (frames : machine.calls.frames = name :: calls.frames)
      (limit : machine.calls.limit = calls.limit) :
      Step ⟨machine, flight⟩ (.leave name) ⟨{ machine with calls }, flight.map (·.leave name)⟩
  | select {machine : Machine} (error : Error) :
      Step ⟨machine, some error⟩ (.select error) ⟨machine, some error⟩
  | handle {machine : Machine} (index : Nat) (error : Error) :
      Step ⟨machine, some error⟩ (.handle index error)
        ⟨{ machine with handling := error :: machine.handling }, none⟩
  | finish {machine : Machine} {error : Error} {handling : List Error} {flight : Option Error}
      (inner : machine.handling = error :: handling) :
      Step ⟨machine, flight⟩ .finish ⟨{ machine with handling }, flight⟩
  | receive {machine : Machine} (error : Error) :
      Step ⟨machine, some error⟩ (.receive error) ⟨machine, none⟩

/-- A trail that leads from one status to another. -/
inductive Path : Status → List (Moment Machine) → Status → Prop where
  | done (status : Status) : Path status [] status
  | step {first next last : Status} {event : Event} {rest : List (Moment Machine)}
      (now : Step first event next) (later : Path next rest last) :
      Path first (⟨event, next.machine⟩ :: rest) last

namespace Path

theorem single {first next : Status} {event : Event} (now : Step first event next) :
    Path first [⟨event, next.machine⟩] next :=
  .step now (.done next)

theorem uncons {first last : Status} {moment : Moment Machine} {rest : List (Moment Machine)}
    (path : Path first (moment :: rest) last) :
    ∃ flight, Step first moment.event ⟨moment.state, flight⟩ ∧
      Path ⟨moment.state, flight⟩ rest last := by
  cases path with
  | @step _ next _ event _ now later => exact ⟨next.flight, now, later⟩

theorem append {first middle last : Status} {left right : List (Moment Machine)}
    (start : Path first left middle) (rest : Path middle right last) :
    Path first (left ++ right) last := by
  induction start with
  | done status => exact rest
  | step now _ ih => exact .step now (ih rest)

theorem split {first last : Status} {left right : List (Moment Machine)}
    (path : Path first (left ++ right) last) :
    ∃ middle, Path first left middle ∧ Path middle right last := by
  induction left generalizing first with
  | nil => exact ⟨first, .done first, path⟩
  | cons moment left ih =>
      cases path with
      | step now later =>
          obtain ⟨middle, start, rest⟩ := ih later
          exact ⟨middle, .step now start, rest⟩

end Path

/-! ## The limit of nested calls -/

/-- No event changes how many functions may run. -/
theorem Step.limit_eq {first next : Status} {event : Event} (step : Step first event next) :
    next.machine.calls.limit = first.machine.calls.limit := by
  cases step with
  | change calls _ => exact congrArg CallStack.limit calls
  | enter pushed => exact (CallStack.push_eq_ok pushed).2
  | leave _ limit => exact limit.symm
  | raise | refuse | select | handle | finish | receive => rfl

theorem Path.limit_eq {first last : Status} {trail : List (Moment Machine)}
    (path : Path first trail last) :
    ∀ moment ∈ trail, moment.state.calls.limit = first.machine.calls.limit := by
  induction path with
  | done status => simp
  | step now _ ih =>
      intro moment member
      rcases List.mem_cons.mp member with rfl | later
      · exact now.limit_eq
      · exact (ih moment later).trans now.limit_eq

/-- No moment has more running functions than the limit at the start allows. -/
theorem Path.depth_le {first last : Status} {trail : List (Moment Machine)}
    (path : Path first trail last) {moment : Moment Machine} (member : moment ∈ trail) {most : Nat}
    (bound : most ∈ first.machine.calls.limit) : moment.state.calls.depth ≤ most := by
  refine moment.state.calls.within most ?_
  rw [path.limit_eq moment member]
  exact bound

end ScriptCore.Run
