import ScriptCore.Proofs.Run.Interpreter

/-!
# Backtraces and the call stack

The call stack lists the functions that are running; the backtrace of an error
lists the functions it has left.  While an error is in flight the one grows by
exactly the names by which the other shrinks.
-/

namespace ScriptCore

namespace Event

/-- Whether an error in flight lands here: a handler or the host takes it. -/
def lands : Event → Bool
  | handle .. | receive .. => true
  | _ => false

/-- The function that is left here. -/
def left? : Event → Option Name
  | leave name => some name
  | _ => none

end Event

namespace Error

/-- The error after it has left these functions, innermost first. -/
def leaveAll (error : Error) (names : List Name) : Error :=
  { error with backtrace := error.backtrace ++ names }

theorem leaveAll_nil (error : Error) : error.leaveAll [] = error := by
  simp [leaveAll]

theorem leaveAll_leaveAll (error : Error) (first second : List Name) :
    (error.leaveAll first).leaveAll second = error.leaveAll (first ++ second) := by
  simp [leaveAll]

end Error

namespace Run

/-- The functions left on the way, innermost first. -/
def leftOn {σ : Type} (trail : List (Moment σ)) : List Name :=
  trail.filterMap (·.event.left?)

theorem leftOn_cons {σ : Type} (moment : Moment σ) (trail : List (Moment σ)) :
    leftOn (moment :: trail) = moment.event.left?.toList ++ leftOn trail := by
  cases left : moment.event.left? <;> simp [leftOn, left]

theorem leftOn_map {σ τ : Type} (view : σ → τ) (trail : List (Moment σ)) :
    leftOn (trail.map (·.map view)) = leftOn trail := by
  rw [leftOn, List.filterMap_map]
  rfl

/-! ## An error in flight -/

/-- One event of a flight leaves at most one function, and the error remembers it. -/
theorem Step.flight {machine : Machine} {error : Error} {next : Status} {event : Event}
    (step : Step ⟨machine, some error⟩ event next) (aloft : event.lands = false) :
    next.flight = some (error.leaveAll event.left?.toList) ∧
      machine.calls.frames = event.left?.toList ++ next.machine.calls.frames := by
  cases step with
  | leave frames limit => exact ⟨rfl, frames⟩
  | select error => exact ⟨congrArg some error.leaveAll_nil.symm, rfl⟩
  | finish inner => exact ⟨congrArg some error.leaveAll_nil.symm, rfl⟩
  | handle index error => cases aloft
  | receive error => cases aloft

/-- A flight leaves functions in the order of the call stack. -/
theorem Path.flight {machine : Machine} {error : Error} {last : Status}
    {trail : List (Moment Machine)} (path : Path ⟨machine, some error⟩ trail last)
    (aloft : ∀ moment ∈ trail, moment.event.lands = false) :
    last.flight = some (error.leaveAll (leftOn trail)) ∧
      machine.calls.frames = leftOn trail ++ last.machine.calls.frames := by
  induction trail generalizing machine error with
  | nil =>
      cases path
      exact ⟨congrArg some error.leaveAll_nil.symm, rfl⟩
  | cons moment rest ih =>
      cases path with
      | @step _ next _ event _ now later =>
          obtain ⟨carried, frames⟩ := now.flight (aloft _ List.mem_cons_self)
          obtain ⟨nextMachine, nextFlight⟩ := next
          cases carried
          obtain ⟨arrived, below⟩ := ih later fun other member =>
            aloft other (List.mem_cons_of_mem _ member)
          rw [leftOn_cons]
          refine ⟨?_, ?_⟩
          · rw [arrived, Error.leaveAll_leaveAll]
          · rw [frames, below, List.append_assoc]

/-- An error in flight has just come up, or it was in flight before. -/
theorem Step.raised_or_carried {first next : Status} {event : Event}
    (step : Step first event next) (carried : next.flight ≠ none) :
    (∃ error, event = .raise error) ∨ first.flight ≠ none ∧ event.lands = false := by
  cases step with
  | raise error => exact .inl ⟨error, rfl⟩
  | change | enter | refuse | handle | receive => exact absurd rfl carried
  | leave frames limit =>
      exact .inr ⟨fun absent => carried (congrArg (Option.map _) absent), rfl⟩
  | select error => exact .inr ⟨nofun, rfl⟩
  | finish inner => exact .inr ⟨carried, rfl⟩

/-- An error that is in flight at the end of a path has come up on it, or was in flight before. -/
theorem Path.raised_or_carried {first last : Status} {trail : List (Moment Machine)}
    (path : Path first trail last) (carried : last.flight ≠ none) :
    (∃ before error machine between, trail = before ++ ⟨.raise error, machine⟩ :: between ∧
        ∀ moment ∈ between, moment.event.lands = false) ∨
      first.flight ≠ none ∧ ∀ moment ∈ trail, moment.event.lands = false := by
  induction path with
  | done status => exact .inr ⟨carried, by simp⟩
  | @step first next last event rest now later ih =>
      rcases ih carried with ⟨before, error, machine, between, split, aloft⟩ | ⟨inFlight, aloft⟩
      · refine .inl ⟨⟨event, next.machine⟩ :: before, error, machine, between, ?_, aloft⟩
        rw [split, List.cons_append]
      · rcases now.raised_or_carried inFlight with ⟨error, rfl⟩ | ⟨earlier, onTheWay⟩
        · exact .inl ⟨[], error, next.machine, rest, rfl, aloft⟩
        · refine .inr ⟨earlier, fun moment member => ?_⟩
          rcases List.mem_cons.mp member with rfl | later
          · exact onTheWay
          · exact aloft moment later

/-! ## From where an error comes up to where it arrives -/

/-- What becomes of an error that leaves functions. -/
structure Unwound (error : Error) (origin : Machine) (left : List Name) (received : Error)
    (arrival : Machine) : Prop where
  frames : origin.calls.frames = left ++ arrival.calls.frames
  received : received = error.leaveAll left

/-- For an error without backtrace this is the call stack where it came up. -/
theorem Unwound.backtrace_append {error received : Error} {origin arrival : Machine}
    {left : List Name} (unwound : Unwound error origin left received arrival) :
    received.backtrace ++ arrival.calls.frames = error.backtrace ++ origin.calls.frames := by
  rw [unwound.received, unwound.frames, Error.leaveAll, List.append_assoc]

/-- The places where an error arrives that came up in a run and did not land on the way. -/
inductive Arrives {σ α : Type} (body : Computation σ α) (start : σ) (error : Error) (origin : σ)
    (between : List (Moment σ)) (received : Error) : σ → Prop where
  /-- The clauses of a region are asked about it. -/
  | selection (before after : List (Moment σ)) {arrival : σ}
      (trail : body.trail start =
        before ++ ⟨.raise error, origin⟩ :: (between ++ ⟨.select received, arrival⟩ :: after))
      (aloft : ∀ moment ∈ between, moment.event.lands = false) :
      Arrives body start error origin between received arrival
  /-- A host takes it. -/
  | reception (before after : List (Moment σ)) {arrival : σ}
      (trail : body.trail start =
        before ++ ⟨.raise error, origin⟩ :: (between ++ ⟨.receive received, arrival⟩ :: after))
      (aloft : ∀ moment ∈ between, moment.event.lands = false) :
      Arrives body start error origin between received arrival
  /-- The run ends with it. -/
  | finish (before : List (Moment σ)) {arrival : σ}
      (trail : body.trail start = before ++ ⟨.raise error, origin⟩ :: between)
      (aloft : ∀ moment ∈ between, moment.event.lands = false)
      (ended : body.run start = (.raised received, arrival)) :
      Arrives body start error origin between received arrival

section Arrivals

variable {σ α : Type} {view : σ → Machine} {body : Computation σ α}

theorem Path.unwound {machine : Machine} {error received : Error} {last : Status}
    {between : List (Moment σ)}
    (path : Path ⟨machine, some error⟩ (between.map (·.map view)) last)
    (aloft : ∀ moment ∈ between, moment.event.lands = false)
    (arrived : last.flight = some received) :
    Unwound error machine (leftOn between) received last.machine := by
  have seen : ∀ moment ∈ between.map (·.map view), moment.event.lands = false := by
    intro moment member
    obtain ⟨original, inside, rfl⟩ := List.mem_map.mp member
    exact aloft original inside
  obtain ⟨carried, frames⟩ := path.flight seen
  rw [leftOn_map] at carried frames
  rw [arrived] at carried
  exact ⟨frames, Option.some.inj carried⟩

/-- The part of a run that begins where an error comes up. -/
theorem Lawful.path_from_raise {start : σ} {trail before after : List (Moment σ)}
    {ended : Outcome α × σ} {calls : CallStack} {handling : List Error}
    (lawful : Lawful view none start trail ended calls handling) {error : Error} {origin : σ}
    (split : trail = before ++ ⟨.raise error, origin⟩ :: after) :
    Path ⟨view origin, some error⟩ (after.map (·.map view))
      ⟨view ended.2, ended.1.error?⟩ := by
  have path := lawful.path
  rw [split, List.map_append, List.map_cons] at path
  obtain ⟨middle, _, rest⟩ := path.split
  obtain ⟨flight, now, later⟩ := rest.uncons
  cases now with
  | raise error => exact later

/-- An error arrives with the functions in its backtrace that it has left. -/
theorem Arrives.unwound (sound : Sound view body) {start origin arrival : σ}
    {error received : Error} {between : List (Moment σ)}
    (arrives : Arrives body start error origin between received arrival) :
    Unwound error (view origin) (leftOn between) received (view arrival) := by
  have lawful := sound start
  cases arrives with
  | selection before after trail aloft =>
      have path := lawful.path_from_raise trail
      rw [List.map_append, List.map_cons] at path
      obtain ⟨last, flight, rest⟩ := path.split
      obtain ⟨_, now, _⟩ := rest.uncons
      cases now with
      | select error => exact flight.unwound aloft rfl
  | reception before after trail aloft =>
      have path := lawful.path_from_raise trail
      rw [List.map_append, List.map_cons] at path
      obtain ⟨last, flight, rest⟩ := path.split
      obtain ⟨_, now, _⟩ := rest.uncons
      cases now with
      | receive error => exact flight.unwound aloft rfl
  | finish before trail aloft ended =>
      have path := lawful.path_from_raise trail
      rw [ended] at path
      exact path.unwound aloft rfl

/-- An error that is in flight after a part of a run has come up in that part. -/
theorem Path.exists_raise {machine : Machine} {last : Status} {trail : List (Moment σ)}
    (path : Path ⟨machine, none⟩ (trail.map (·.map view)) last) (carried : last.flight ≠ none) :
    ∃ before error origin between, trail = before ++ ⟨.raise error, origin⟩ :: between ∧
      ∀ moment ∈ between, moment.event.lands = false := by
  rcases path.raised_or_carried carried with ⟨_, error, _, _, split, aloft⟩ | ⟨inFlight, _⟩
  · obtain ⟨before, rest, rfl, _, same⟩ := List.map_eq_append_iff.mp split
    obtain ⟨⟨event, origin⟩, between, rfl, seen, rfl⟩ := List.map_eq_cons_iff.mp same
    cases seen
    exact ⟨before, error, origin, between, rfl, fun moment member =>
      aloft (moment.map view) (List.mem_map.mpr ⟨moment, member, rfl⟩)⟩
  · exact absurd rfl inFlight

theorem Arrives.exists_of_select (sound : Sound view body) {start arrival : σ} {received : Error}
    {before after : List (Moment σ)}
    (trail : body.trail start = before ++ ⟨.select received, arrival⟩ :: after) :
    ∃ error origin between, Arrives body start error origin between received arrival := by
  have path := (sound start).path
  rw [trail, List.map_append, List.map_cons] at path
  obtain ⟨middle, early, rest⟩ := path.split
  obtain ⟨_, now, _⟩ := rest.uncons
  cases now with
  | select received =>
      obtain ⟨first, error, origin, between, rfl, aloft⟩ := early.exists_raise nofun
      refine ⟨error, origin, between, .selection first after ?_ aloft⟩
      rw [trail, List.append_assoc, List.cons_append]

theorem Arrives.exists_of_raised (sound : Sound view body) {start arrival : σ} {received : Error}
    (ended : body.run start = (.raised received, arrival)) :
    ∃ error origin between, Arrives body start error origin between received arrival := by
  have path := (sound start).path
  rw [ended] at path
  obtain ⟨before, error, origin, between, trail, aloft⟩ := path.exists_raise nofun
  exact ⟨error, origin, between, .finish before trail aloft ended⟩

end Arrivals

/-! ## Errors of calls -/

section CallErrors

variable {call : Caller} {function : FunctionDef} {arguments : Arguments} {machine : Machine}
  {error : Error}

/-- A refused call comes up where the function is not on the call stack. -/
theorem arrives_of_refused (refused : machine.calls.push function.name = .error error) :
    Arrives (Machine.callFunction call function arguments) machine error machine [] error
      machine := by
  obtain ⟨run, trail⟩ := Machine.enter_of_error refused
  refine .finish [⟨.refuse function.name, machine⟩] ?_ (by simp) ?_
  · unfold Machine.callFunction Machine.within
    rw [Computation.trail_bind_of_ne_value (by simp [run]), trail]
    rfl
  · unfold Machine.callFunction Machine.within
    rw [Computation.run_bind_of_raised run]

theorem runBody_of_unbound (call : Caller)
    (unbound : bind function.name function.signature arguments machine.world.heap =
      .error error) :
    (Machine.runBody call function arguments).run machine = (.raised error, machine) ∧
      (Machine.runBody call function arguments).trail machine = [⟨.raise error, machine⟩] := by
  have failed : (Machine.update (Machine.bindArguments function arguments)).run machine =
      (.raised error, machine) := by
    simp only [Machine.update, Computation.update, Machine.bindArguments, unbound, Except.map]
  unfold Machine.runBody
  rw [Computation.run_bind_of_raised failed, Computation.trail_bind_of_ne_value (by simp [failed])]
  simp only [Machine.update, Computation.update, Machine.bindArguments, unbound, Except.map,
    and_self]

/-- Arguments that do not fit come up where the function is on the call stack. -/
theorem arrives_of_unbound {calls : CallStack}
    (pushed : machine.calls.push function.name = .ok calls)
    (unbound : bind function.name function.signature arguments machine.world.heap =
      .error error) :
    Arrives (Machine.callFunction call function arguments) machine error { machine with calls }
      [⟨.leave function.name, machine⟩] (error.leave function.name) machine := by
  let inside : Machine := { machine with calls }
  obtain ⟨entered, enterTrail⟩ := Machine.enter_of_ok pushed
  obtain ⟨failed, bodyTrail⟩ :
      (Machine.runBody call function arguments).run inside = (.raised error, inside) ∧
        (Machine.runBody call function arguments).trail inside = [⟨.raise error, inside⟩] :=
    runBody_of_unbound call unbound
  have looked : (Machine.runBody call function arguments).result.run inside =
      (.value (.error error), inside) := Computation.run_result failed
  have popped : inside.calls.pop = .ok machine.calls := CallStack.pop_of_push pushed
  obtain ⟨left, leaveTrail⟩ := Machine.leave_of_ok function.name popped
  refine .finish [⟨.enter function.name, inside⟩] ?_ ?_ ?_
  · unfold Machine.callFunction Machine.within
    rw [Computation.trail_bind_of_value entered, Computation.trail_bind_of_value looked,
      Computation.trail_bind_of_value left, enterTrail, leaveTrail, Computation.result, bodyTrail]
    rfl
  · simp [Event.lands]
  · unfold Machine.callFunction Machine.within
    rw [Computation.run_bind_of_value entered, Computation.run_bind_of_value looked,
      Computation.run_bind_of_value left]
    rfl

end CallErrors

/--
An error that came up where the call stack was `S` and arrives where it is `T`
has left the functions by which the two differ, innermost first, and differs
from what it was by these names in its backtrace alone.  Every error that
arrives has come up in the same run.  A refused call raises its error without
the function on the call stack, arguments that do not fit raise theirs with it.
-/
theorem backtrace_agrees_with_calls :
    (∀ {σ α : Type} {view : σ → Machine} {body : Computation σ α}, Composed view body →
      ∀ start,
        (∀ error origin between received arrival,
          Arrives body start error origin between received arrival →
            Unwound error (view origin) (leftOn between) received (view arrival) ∧
              received.backtrace ++ (view arrival).calls.frames =
                error.backtrace ++ (view origin).calls.frames) ∧
        (∀ (before after : List (Moment σ)) received arrival,
          body.trail start = before ++ ⟨.select received, arrival⟩ :: after →
            ∃ error origin between, Arrives body start error origin between received arrival) ∧
        (∀ received arrival, body.run start = (.raised received, arrival) →
          ∃ error origin between, Arrives body start error origin between received arrival)) ∧
    (∀ call function arguments machine error,
      machine.calls.push function.name = .error error →
        Arrives (Machine.callFunction call function arguments) machine error machine [] error
          machine) ∧
    (∀ call function arguments machine calls error,
      machine.calls.push function.name = .ok calls →
      bind function.name function.signature arguments machine.world.heap = .error error →
        Arrives (Machine.callFunction call function arguments) machine error
          { machine with calls } [⟨.leave function.name, machine⟩] (error.leave function.name)
          machine) := by
  refine ⟨?_, ?_, ?_⟩
  · intro σ α view body composed start
    refine ⟨?_, ?_, ?_⟩
    · intro error origin between received arrival arrives
      have unwound := arrives.unwound composed.sound
      exact ⟨unwound, unwound.backtrace_append⟩
    · intro before after received arrival trail
      exact Arrives.exists_of_select composed.sound trail
    · intro received arrival ended
      exact Arrives.exists_of_raised composed.sound ended
  · intro call function arguments machine error refused
    exact arrives_of_refused refused
  · intro call function arguments machine calls error pushed unbound
    exact arrives_of_unbound pushed unbound

/-- The machine before a call of `f`, and while `f` is running. -/
def outside : Machine := .fresh { limit := none }

def inside : Machine :=
  .fresh (outside.calls.add "f" fun most bound => absurd bound (Option.not_mem_none most))

theorem failing_arrives :
    Arrives failing outside (.ofCause .noActiveException) inside [⟨.leave "f", outside⟩]
      ((Error.ofCause .noActiveException).leave "f") outside :=
  .finish [⟨.enter "f", inside⟩] rfl (by simp [Event.lands]) rfl

theorem backtrace_agrees_with_calls_of_f :
    Unwound (.ofCause .noActiveException) inside ["f"]
        ((Error.ofCause .noActiveException).leave "f") outside ∧
      (∃ error origin between, Arrives failing outside error origin between
        ((Error.ofCause .noActiveException).leave "f") outside) ∧
      Arrives (Machine.callFunction (Machine.call 0) ⟨"f", .empty, none, ⟨0⟩⟩ {})
        (.fresh { limit := some 0 }) (.ofCause (.recursionLimit 0)) (.fresh { limit := some 0 }) []
        (.ofCause (.recursionLimit 0)) (.fresh { limit := some 0 }) ∧
      Arrives (Machine.callFunction (Machine.call 0) ⟨"f", .empty, none, ⟨0⟩⟩ (.ofList [.none]))
        outside (.ofCause (.tooManyPositional "f" 0 1)) inside [⟨.leave "f", outside⟩]
        ((Error.ofCause (.tooManyPositional "f" 0 1)).leave "f") outside := by
  obtain ⟨agrees, _, arrives⟩ := backtrace_agrees_with_calls.1 composed_failing outside
  refine ⟨?_, ?_, ?_, ?_⟩
  · exact (agrees _ _ _ _ _ failing_arrives).1
  · exact arrives _ _ rfl
  · exact backtrace_agrees_with_calls.2.1 (Machine.call 0) ⟨"f", .empty, none, ⟨0⟩⟩ {}
      (.fresh { limit := some 0 }) _ rfl
  · exact backtrace_agrees_with_calls.2.2 (Machine.call 0) ⟨"f", .empty, none, ⟨0⟩⟩
      (.ofList [.none]) outside inside.calls _ rfl rfl

end Run

end ScriptCore
