import ScriptCore.Proofs.Run.Interpreter
import ScriptCore.Proofs.Run.Surroundings

/-!
# The error that is current

The errors that a machine holds are those of the handlers that are running,
innermost first, each as it was when its handler began.  So the error of a bare
raise is that of the innermost handler around it.
-/

namespace ScriptCore

namespace Event

/-- Whether handlers neither begin nor end here. -/
def keepsHandlers : Event → Bool
  | handle .. | finish => false
  | _ => true

end Event

namespace Run

/-! ## Handlers that have begun and not ended -/

/-- Every handler that has begun has ended, and no other one. -/
inductive Closed : List Event → Prop where
  | nil : Closed []
  | other {event : Event} {rest : List Event} (keeps : event.keepsHandlers = true)
      (later : Closed rest) : Closed (event :: rest)
  | handler {index : Nat} {error : Error} {inside rest : List Event} (inner : Closed inside)
      (later : Closed rest) : Closed (.handle index error :: (inside ++ .finish :: rest))

/-- The handlers of these errors have begun and not ended, listed innermost first. -/
inductive Open : List Event → List Error → Prop where
  | closed {events : List Event} (since : Closed events) : Open events []
  | handler {before after : List Event} {errors : List Error} {index : Nat} {error : Error}
      (outer : Open before errors) (since : Closed after) :
      Open (before ++ .handle index error :: after) (error :: errors)

section Handlers

variable {left right events : List Event} {outer inner : List Error} {event : Event}

theorem Closed.single (keeps : event.keepsHandlers = true) : Closed [event] :=
  .other keeps .nil

theorem Closed.append (first : Closed left) (second : Closed right) : Closed (left ++ right) := by
  induction first with
  | nil => exact second
  | other keeps _ ih => exact .other keeps ih
  | handler inner _ _ ih =>
      rw [List.cons_append, List.append_assoc]
      exact .handler inner ih

theorem Open.append_closed (first : Open left outer) (second : Closed right) :
    Open (left ++ right) outer := by
  cases first with
  | closed since => exact .closed (since.append second)
  | handler outer since =>
      rw [List.append_assoc, List.cons_append]
      exact .handler outer (since.append second)

theorem Open.append (first : Open left outer) (second : Open right inner) :
    Open (left ++ right) (inner ++ outer) := by
  induction second with
  | closed since => exact first.append_closed since
  | handler _ since ih =>
      rw [← List.append_assoc]
      exact .handler ih since

theorem Open.begin (index : Nat) (error : Error) : Open [.handle index error] [error] :=
  .handler (.closed .nil) .nil

/-- A part of a list that is joined from two ends in the first or goes on in the second. -/
theorem prefix_append_cases {α : Type} {part first second : List α}
    (start : part <+: first ++ second) :
    part <+: first ∨ ∃ rest, part = first ++ rest ∧ rest <+: second := by
  rcases List.prefix_or_prefix_of_prefix start (List.prefix_append first second) with early | late
  · exact .inl early
  · obtain ⟨rest, rfl⟩ := late
    exact .inr ⟨rest, rfl, (List.prefix_append_right_inj first).mp start⟩

theorem Closed.exists_open_of_prefix (closed : Closed events) (start : left <+: events) :
    ∃ errors, Open left errors := by
  induction closed generalizing left with
  | nil =>
      rw [List.prefix_nil.mp start]
      exact ⟨[], .closed .nil⟩
  | other keeps _ ih =>
      rcases List.prefix_cons_iff.mp start with rfl | ⟨part, rfl, more⟩
      · exact ⟨[], .closed .nil⟩
      · obtain ⟨errors, opened⟩ := ih more
        exact ⟨_, (Open.closed (.single keeps)).append opened⟩
  | @handler index error inside rest inner _ insideIh restIh =>
      rcases List.prefix_cons_iff.mp start with rfl | ⟨part, rfl, more⟩
      · exact ⟨[], .closed .nil⟩
      · rcases prefix_append_cases more with within | ⟨after, rfl, beyond⟩
        · obtain ⟨errors, opened⟩ := insideIh within
          exact ⟨_, (Open.begin index error).append opened⟩
        · rcases List.prefix_cons_iff.mp beyond with rfl | ⟨later, rfl, farther⟩
          · rw [List.append_nil]
            exact ⟨_, (Open.begin index error).append (.closed inner)⟩
          · obtain ⟨errors, opened⟩ := restIh farther
            have ended : Closed (.handle index error :: (inside ++ [.finish])) :=
              .handler inner .nil
            have whole := (Open.closed ended).append opened
            rw [List.cons_append, List.append_assoc] at whole
            exact ⟨_, whole⟩

/-- At every earlier point some handlers were open as well. -/
theorem Open.exists_open_of_prefix (opened : Open events outer) (start : left <+: events) :
    ∃ errors, Open left errors := by
  induction opened generalizing left with
  | closed since => exact since.exists_open_of_prefix start
  | @handler before after errors index error outer since ih =>
      rcases prefix_append_cases start with early | ⟨rest, rfl, beyond⟩
      · exact ih early
      · rcases List.prefix_cons_iff.mp beyond with rfl | ⟨part, rfl, more⟩
        · rw [List.append_nil]
          exact ⟨_, outer⟩
        · obtain ⟨inner, opened⟩ := since.exists_open_of_prefix more
          exact ⟨_, outer.append ((Open.begin index error).append opened)⟩

end Handlers

/-! ## The handlers of a machine -/

/-- The events of a trail. -/
def events {σ : Type} (trail : List (Moment σ)) : List Event := trail.map (·.event)

theorem events_map {σ τ : Type} (view : σ → τ) (trail : List (Moment σ)) :
    events (trail.map (·.map view)) = events trail := by
  rw [events, List.map_map]
  rfl

theorem Step.handling_eq {first next : Status} {event : Event} (step : Step first event next)
    (keeps : event.keepsHandlers = true) : next.machine.handling = first.machine.handling := by
  cases step with
  | change _ handling => exact handling
  | handle | finish => cases keeps
  | raise | enter | refuse | leave | select | receive => rfl

/-- Where handlers are closed the machine handles what it handled before. -/
theorem Path.handling_of_closed {first last : Status} {trail : List (Moment Machine)}
    (path : Path first trail last) (closed : Closed (events trail)) :
    last.machine.handling = first.machine.handling := by
  generalize same : events trail = between at closed
  induction closed generalizing first last trail with
  | nil =>
      cases List.map_eq_nil_iff.mp same
      cases path
      rfl
  | other keeps _ ih =>
      obtain ⟨moment, rest, rfl, rfl, restSame⟩ := List.map_eq_cons_iff.mp same
      obtain ⟨flight, now, later⟩ := path.uncons
      exact (ih later restSame).trans (now.handling_eq keeps)
  | @handler index error _ _ _ _ insideIh restIh =>
      obtain ⟨begun, _, rfl, isBegun, same⟩ := List.map_eq_cons_iff.mp same
      obtain ⟨inside, _, rfl, insideSame, same⟩ := List.map_eq_append_iff.mp same
      obtain ⟨ended, rest, rfl, isEnded, restSame⟩ := List.map_eq_cons_iff.mp same
      obtain ⟨_, begins, path⟩ := path.uncons
      obtain ⟨middle, inner, path⟩ := path.split
      obtain ⟨_, ends, later⟩ := path.uncons
      have around := insideIh inner insideSame
      have after := restIh later restSame
      rw [isBegun] at begins
      rw [isEnded] at ends
      generalize begun.state = here at begins around
      generalize ended.state = there at ends after
      cases begins with
      | handle _ _ =>
          cases ends with
          | finish innermost =>
              rw [innermost] at around
              exact after.trans (List.cons.inj around).2

/-- What the machine handles besides what it handled before are the open handlers. -/
theorem Path.handling_of_open {first last : Status} {trail : List (Moment Machine)}
    (path : Path first trail last) {errors : List Error} (opened : Open (events trail) errors) :
    last.machine.handling = errors ++ first.machine.handling := by
  generalize same : events trail = seen at opened
  induction opened generalizing last trail with
  | closed since =>
      subst same
      exact path.handling_of_closed since
  | handler _ since ih =>
      obtain ⟨before, _, rfl, beforeSame, same⟩ := List.map_eq_append_iff.mp same
      obtain ⟨begun, after, rfl, isBegun, rfl⟩ := List.map_eq_cons_iff.mp same
      obtain ⟨middle, outer, path⟩ := path.split
      obtain ⟨_, begins, later⟩ := path.uncons
      have around := ih outer beforeSame
      have here := later.handling_of_closed since
      rw [isBegun] at begins
      generalize begun.state = here at begins here
      cases begins with
      | handle _ _ =>
          rw [here]
          exact congrArg _ around

/-! ## The handlers of a run -/

/-- Every handler that begins in a run ends in it, unless the run is out of fuel. -/
structure Bracketed {α : Type} (seen : List Event) (outcome : Outcome α) : Prop where
  opened : ∃ errors, Open seen errors
  closed : outcome ≠ .outOfFuel → Closed seen

section Runs

variable {σ α β : Type} {view : σ → Machine} {body : Computation σ α} {start : σ}
  {outcome : Outcome α} {left right : List Event}

theorem Closed.bracketed (closed : Closed left) : Bracketed left outcome :=
  ⟨⟨[], .closed closed⟩, fun _ => closed⟩

theorem bracketed_of_open (opened : ∃ errors, Open left errors) :
    Bracketed left (.outOfFuel : Outcome α) :=
  ⟨opened, fun fueled => absurd rfl fueled⟩

theorem Closed.bracketed_append (first : Closed left) (second : Bracketed right outcome) :
    Bracketed (left ++ right) outcome where
  opened :=
    have ⟨_, opened⟩ := second.opened
    ⟨_, (Open.closed first).append opened⟩
  closed fueled := first.append (second.closed fueled)

/-- All runs leave the handlers that they begin. -/
def Brackets (body : Computation σ α) : Prop :=
  ∀ start, Bracketed (events (body.trail start)) (body.run start).1

theorem brackets_inspect (look : σ → Except Error α) : Brackets (.inspect look) := by
  intro s
  simp only [Computation.inspect]
  cases look s with
  | ok a => exact Closed.nil.bracketed
  | error error => exact (Closed.single rfl).bracketed

theorem brackets_update (step : σ → Except Error (α × σ)) : Brackets (.update step) := by
  intro s
  simp only [Computation.update]
  cases step s with
  | ok result => exact (Closed.single rfl).bracketed
  | error error => exact (Closed.single rfl).bracketed

theorem brackets_bind {next : α → Computation σ β} (sound : Sound view body)
    (first : Brackets body) (second : ∀ a, Brackets (next a)) : Brackets (body >>= next) := by
  intro start
  have before := first start
  rcases (sound start).exists_result with ⟨result, ended⟩ | ended
  · rw [ended] at before
    have closed := before.closed (Outcome.ofExcept_ne_outOfFuel result)
    cases result with
    | ok a =>
        rw [Computation.run_bind_of_value ended, Computation.trail_bind_of_value ended, events,
          List.map_append]
        exact closed.bracketed_append (second a _)
    | error error =>
        rw [Computation.run_bind_of_raised ended,
          Computation.trail_bind_of_ne_value (by rw [ended]; exact nofun)]
        exact closed.bracketed
  · rw [Computation.run_bind_of_outOfFuel ended,
      Computation.trail_bind_of_ne_value (by rw [ended]; exact nofun)]
    exact bracketed_of_open before.opened

theorem brackets_attempt (sound : Sound view body) (inner : Brackets body) :
    Brackets body.attempt := by
  intro start
  change Bracketed (events ((body.result >>= _).trail start)) ((body.result >>= _).run start).1
  have before := inner start
  rcases (sound start).exists_result with ⟨result, ended⟩ | ended
  · rw [ended] at before
    have closed := before.closed (Outcome.ofExcept_ne_outOfFuel result)
    have looked := Computation.run_result ended
    rw [Computation.run_bind_of_value looked, Computation.trail_bind_of_value looked, events,
      List.map_append]
    cases result with
    | ok a => exact closed.bracketed_append Closed.nil.bracketed
    | error error => exact closed.bracketed_append (Closed.single rfl).bracketed
  · have looked := Computation.run_result_of_outOfFuel ended
    rw [Computation.run_bind_of_outOfFuel looked,
      Computation.trail_bind_of_ne_value (by rw [looked]; exact nofun)]
    exact bracketed_of_open before.opened

theorem brackets_onPart {τ : Type} {part : τ → σ} {put : τ → σ → τ} (inner : Brackets body) :
    Brackets (.onPart part put body) := by
  intro start
  simp only [Computation.onPart, events_map]
  exact inner (part start)

end Runs

theorem brackets_within {name : Name} {body : Computation Machine Value} (sound : Sound id body)
    (inner : Brackets body) : Brackets (Machine.within name body) := by
  intro machine
  cases pushed : machine.calls.push name with
  | error error =>
      obtain ⟨run, trail⟩ := within_of_refused body pushed
      rw [run, trail]
      exact (Closed.other rfl (.single rfl)).bracketed
  | ok calls =>
      have lawful := sound { machine with calls }
      have before := inner { machine with calls }
      rcases lawful.exists_result with ⟨result, ended⟩ | ended
      · rw [ended] at lawful before
        have fueled := Outcome.ofExcept_ne_outOfFuel result
        obtain ⟨run, trail⟩ := within_of_result pushed ended (lawful.calls fueled)
        rw [run, trail, events, List.map_cons, List.map_append]
        exact (Closed.other rfl ((before.closed fueled).append (.single rfl))).bracketed
      · obtain ⟨run, trail⟩ := within_of_outOfFuel pushed ended
        rw [run, trail]
        exact (Closed.single rfl).bracketed_append (bracketed_of_open before.opened)

section Regions

variable {clauses : List Clause} {body handler : Computation Activation Value}
  {handlers : Nat → Error → Computation Activation Value}

theorem brackets_handle (index : Nat) (error : Error) (sound : Sound Activation.machine handler)
    (inner : Brackets handler) :
    Brackets (Activation.handle (.handling index) index error handler) := by
  intro middle
  have before := inner (middle.handling error)
  rcases (sound (middle.handling error)).exists_result with ⟨result, ended⟩ | ended
  · obtain ⟨run, trail⟩ := handle_of_result ended
    rw [ended] at before
    have closed := before.closed (Outcome.ofExcept_ne_outOfFuel result)
    rw [run, trail, events, List.map_cons, List.map_append]
    exact (Closed.handler closed .nil).bracketed
  · obtain ⟨run, trail⟩ := handle_of_outOfFuel ended
    obtain ⟨errors, opened⟩ := before.opened
    rw [run, trail]
    exact bracketed_of_open ⟨_, (Open.begin index error).append opened⟩

theorem brackets_dispatch (error : Error)
    (sound : ∀ index error, Sound Activation.machine (handlers index error))
    (inner : ∀ index error, Brackets (handlers index error)) :
    Brackets (Activation.dispatch clauses error handlers) := by
  intro middle
  cases taken : Clause.select middle.machine.world.types error clauses with
  | none =>
      obtain ⟨run, trail⟩ := dispatch_of_none clauses handlers taken
      rw [run, trail]
      exact (Closed.single rfl).bracketed
  | some index =>
      obtain ⟨run, trail⟩ := dispatch_of_some clauses handlers taken
      rw [run, trail]
      exact (Closed.single rfl).bracketed_append
        (brackets_handle index error (sound index error) (inner index error) middle)

theorem brackets_guarded (sound : Sound Activation.machine body)
    (guards : ∀ index error, Sound Activation.machine (handlers index error))
    (inner : Brackets body) (innerHandlers : ∀ index error, Brackets (handlers index error)) :
    Brackets (Activation.guarded clauses body handlers) := by
  intro start
  have before := inner start
  rcases (sound start).exists_result with ⟨result, ended⟩ | ended
  · rw [ended] at before
    have closed := before.closed (Outcome.ofExcept_ne_outOfFuel result)
    cases result with
    | ok value =>
        obtain ⟨run, trail⟩ := guarded_of_value clauses handlers ended
        rw [run, trail]
        exact closed.bracketed
    | error error =>
        obtain ⟨run, trail⟩ := guarded_of_raised clauses handlers ended
        rw [run, trail, events, List.map_append]
        exact closed.bracketed_append (brackets_dispatch error guards innerHandlers _)
  · obtain ⟨run, trail⟩ := guarded_of_outOfFuel clauses handlers ended
    rw [run, trail]
    exact bracketed_of_open before.opened

end Regions

theorem Composed.brackets {σ α : Type} {view : σ → Machine} {body : Computation σ α}
    (composed : Composed view body) : Brackets body := by
  induction composed with
  | pure a => exact fun _ => Closed.nil.bracketed
  | bind left _ first second => exact brackets_bind left.sound first second
  | inspect look => exact brackets_inspect look
  | @update _ _ _ step _ _ => exact brackets_update step
  | attempt body inner => exact brackets_attempt body.sound inner
  | within body inner => exact brackets_within body.sound inner
  | guarded body guards inner handlers =>
      exact brackets_guarded body.sound (fun index error => (guards index error).sound) inner
        handlers
  | onPart _ _ _ inner => exact brackets_onPart inner
  | exhausted => exact fun _ => Closed.nil.bracketed

/-! ## The current error -/

theorem Path.to_moment {first last : Status} {before after : List (Moment Machine)}
    {moment : Moment Machine} (path : Path first (before ++ moment :: after) last) :
    ∃ flight, Path first (before ++ [moment]) ⟨moment.state, flight⟩ := by
  obtain ⟨middle, early, rest⟩ := path.split
  obtain ⟨flight, now, _⟩ := rest.uncons
  exact ⟨flight, early.append (.single now)⟩

section Moments

variable {σ α : Type} {view : σ → Machine} {body : Computation σ α} {start : σ}
  {before after : List (Moment σ)} {moment : Moment σ}

/-- At every moment of a run it is settled which handlers are open. -/
theorem Brackets.exists_open (brackets : Brackets body)
    (trail : body.trail start = before ++ moment :: after) :
    ∃ errors, Open (events (before ++ [moment])) errors := by
  obtain ⟨_, opened⟩ := (brackets start).opened
  have early : before ++ [moment] <+: body.trail start :=
    ⟨after, by rw [trail, List.append_assoc, List.singleton_append]⟩
  exact opened.exists_open_of_prefix (early.map _)

/-- A machine handles the errors of the open handlers and those from before. -/
theorem Sound.handling_of_open (sound : Sound view body)
    (trail : body.trail start = before ++ moment :: after) {errors : List Error}
    (opened : Open (events (before ++ [moment])) errors) :
    (view moment.state).handling = errors ++ (view start).handling := by
  have path := (sound start).path
  rw [trail, List.map_append, List.map_cons] at path
  obtain ⟨flight, early⟩ := path.to_moment
  rw [← events_map view, List.map_append, List.map_singleton] at opened
  exact early.handling_of_open opened

end Moments

theorem Layer.handled_eq_nil {layers : List Layer} (none : ∀ error, .handler error ∉ layers) :
    handled layers = [] := by
  induction layers with
  | nil => rfl
  | cons layer layers ih =>
      have rest := ih fun error member => none error (List.mem_cons_of_mem _ member)
      cases layer with
      | handler error => exact absurd List.mem_cons_self (none error)
      | call | body | host => exact rest

theorem reraise_of_handling {machine : Machine} {error : Error} {outer : List Error}
    (handling : machine.handling = error :: outer) : machine.reraise = error := by
  rw [Machine.reraise, Machine.current?, handling]
  rfl

theorem reraise_of_handling_nil {machine : Machine} (handling : machine.handling = []) :
    machine.reraise = .ofCause .noActiveException := by
  rw [Machine.reraise, Machine.current?, handling]
  rfl

/--
At every moment of a run the machine handles the errors of the handlers that
have begun and not ended, innermost first, and what it handled before.  Where a
run comes to within layers, these are the handlers among the layers.  A bare
raise gives the error with which the innermost of them began, and without any
handler it is an error of its own.
-/
theorem current_error_is_of_innermost_handler :
    (∀ {σ α : Type} {view : σ → Machine} {body : Computation σ α}, Composed view body →
      ∀ (start : σ) (before after : List (Moment σ)) (moment : Moment σ),
        body.trail start = before ++ moment :: after →
        (∃ errors, Open (events (before ++ [moment])) errors) ∧
        (∀ errors, Open (events (before ++ [moment])) errors →
          (view moment.state).handling = errors ++ (view start).handling) ∧
        (∀ error outer, Open (events (before ++ [moment])) (error :: outer) →
          (view moment.state).reraise = error) ∧
        (Open (events (before ++ [moment])) [] → (view start).handling = [] →
          (view moment.state).reraise = .ofCause .noActiveException)) ∧
    (∀ {σ τ α β : Type} {view : σ → Machine} {inside : τ → Machine} {whole : Computation σ α}
      {part : Computation τ β} {start : σ} {point : τ} {layers : List Layer},
      Reaches inside part point view whole start layers →
        (inside point).handling = Layer.handled layers ++ (view start).handling ∧
        (∀ outer error inner, layers = outer ++ .handler error :: inner →
          (∀ other, .handler other ∉ inner) → (inside point).reraise = error) ∧
        ((∀ error, .handler error ∉ layers) → (view start).handling = [] →
          (inside point).reraise = .ofCause .noActiveException)) := by
  refine ⟨?_, ?_⟩
  · intro σ α view body composed start before after moment trail
    have held {errors : List Error} (opened : Open (events (before ++ [moment])) errors) :=
      composed.sound.handling_of_open trail opened
    refine ⟨composed.brackets.exists_open trail, fun errors => held, ?_, ?_⟩
    · intro error outer opened
      exact reraise_of_handling (held opened)
    · intro opened none
      exact reraise_of_handling_nil ((held opened).trans none)
  · intro σ τ α β view inside whole part start point layers reaches
    have held := reaches.handling_eq
    refine ⟨held, ?_, ?_⟩
    · intro outer error inner split innermost
      rw [split, Layer.handled_append, Layer.handled, Layer.handled_eq_nil innermost] at held
      exact reraise_of_handling held
    · intro none start
      rw [Layer.handled_eq_nil none, start] at held
      exact reraise_of_handling_nil held

/-- The error of an absent argument. -/
def absent : Error := .ofCause (.nativeArity "h" 1 0)

/-- A region that takes an error and goes on without a value. -/
def swallowing : Computation Activation Value :=
  Activation.guarded [.bare] (.raise absent) fun _ _ => .pure .none

theorem composed_swallowing : Composed Activation.machine swallowing :=
  .guarded (.inspect _) fun _ _ => .pure _

/-- A bare raise. -/
def bareRaise : Computation Machine Value := .inspect fun machine => .error machine.reraise

/--
The handler of the error of `f` lets another region end, which has a handler of
its own, and then calls `g`, which raises again.
-/
def raisingAgain : Computation Activation Value :=
  Activation.guarded [.bare] (Activation.onMachine failing) fun _ _ => do
    let _ ← swallowing
    Activation.onMachine (Machine.within "g" bareRaise)

theorem composed_raisingAgain : Composed Activation.machine raisingAgain :=
  .guarded (composed_onMachine composed_failing) fun _ _ =>
    .bind composed_swallowing fun _ => composed_onMachine (.within (.inspect _))

/-- The error of `f` after it has left `f`. -/
def failed : Error := (Error.ofCause .noActiveException).leave "f"

/-- The machine while `g` is running under the handler. -/
def inHandler : Machine :=
  { Machine.fresh { limit := none } with
    calls := ({ limit := none } : CallStack).add "g" nofun
    handling := [failed] }

theorem raisingAgain_reaches :
    Reaches id bareRaise inHandler Activation.machine raisingAgain (Session.start none)
      [.handler failed, .call "g"] :=
  .handler (composed_onMachine composed_failing) rfl rfl <|
    .next composed_swallowing rfl <| .onPart (fun _ => rfl) (fun _ _ => rfl) <| .call rfl .here

/-- The moment when `g` is entered. -/
def enteringG : Moment Activation :=
  ⟨.enter "g", { Session.start none with machine := inHandler }⟩

theorem trail_raisingAgain :
    raisingAgain.trail (Session.start none) =
      (raisingAgain.trail (Session.start none)).take 9 ++
        enteringG :: (raisingAgain.trail (Session.start none)).drop 10 := rfl

theorem raisingAgain_open :
    Open (events ((raisingAgain.trail (Session.start none)).take 9 ++ [enteringG])) [failed] := by
  have before : Closed
      [.enter "f", .raise (.ofCause .noActiveException), .leave "f", .select failed] :=
    .other rfl (.other rfl (.other rfl (.single rfl)))
  have since : Closed
      [.raise absent, .select absent, .handle 0 absent, .finish, .enter "g"] :=
    .other rfl (.other rfl (.handler .nil (.single rfl)))
  exact .handler (.closed before) since

theorem current_error_is_of_innermost_handler_raisingAgain :
    enteringG.state.machine.handling = [failed] ∧ inHandler.reraise = failed ∧
      (Machine.fresh { limit := none }).reraise = .ofCause .noActiveException := by
  obtain ⟨moments, points⟩ := current_error_is_of_innermost_handler
  refine ⟨?_, ?_, ?_⟩
  · exact (moments composed_raisingAgain _ _ _ _ trail_raisingAgain).2.1 _ raisingAgain_open
  · exact (points raisingAgain_reaches).2.1 [] failed [.call "g"] rfl (by simp)
  · have outside : Reaches id bareRaise (.fresh { limit := none }) id bareRaise _ [] := .here
    exact (points outside).2.2 (by simp) rfl

end Run

end ScriptCore
