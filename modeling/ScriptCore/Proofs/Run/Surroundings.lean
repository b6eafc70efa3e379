import ScriptCore.Proofs.Run.Composed

/-!
# What surrounds a point of a run

A run comes to a point within layers: functions that have been called and not
left, try regions whose body or whose handler is running, hosts that wait for a
result.  The call stack and the handled errors at the point are those at the
start of the run together with what the layers have added.
-/

namespace ScriptCore

namespace Activation

/-- The activation when a handler of the error begins. -/
def handling (activation : Activation) (error : Error) : Activation :=
  { activation with
    machine := { activation.machine with handling := error :: activation.machine.handling } }

/-- The activation when the innermost handler has ended. -/
def handled (activation : Activation) : Activation :=
  { activation with
    machine := { activation.machine with handling := activation.machine.handling.tail } }

end Activation

namespace Run

/-! ## How regions run -/

section Regions

variable (clauses : List Clause) (handlers : Nat → Error → Computation Activation Value)
  {body handler : Computation Activation Value} {start middle last : Activation} {error : Error}
  {index : Nat}

theorem trail_prefix_guarded (body : Computation Activation Value) (start : Activation) :
    body.trail start <+: (Activation.guarded clauses body handlers).trail start :=
  Computation.trail_prefix_bind body.result _ start

theorem guarded_of_value {value : Value} (gave : body.run start = (.value value, middle)) :
    (Activation.guarded clauses body handlers).run start = (.value value, middle) ∧
      (Activation.guarded clauses body handlers).trail start = body.trail start := by
  have ended : body.run start = (.ofExcept (.ok value), middle) := gave
  have looked := Computation.run_result ended
  unfold Activation.guarded
  rw [Computation.run_bind_of_value looked, Computation.trail_bind_of_value looked]
  exact ⟨rfl, List.append_nil _⟩

theorem guarded_of_raised (raised : body.run start = (.raised error, middle)) :
    (Activation.guarded clauses body handlers).run start =
        (Activation.dispatch clauses error handlers).run middle ∧
      (Activation.guarded clauses body handlers).trail start =
        body.trail start ++ (Activation.dispatch clauses error handlers).trail middle := by
  have ended : body.run start = (.ofExcept (.error error), middle) := raised
  have looked := Computation.run_result ended
  unfold Activation.guarded
  rw [Computation.run_bind_of_value looked, Computation.trail_bind_of_value looked]
  exact ⟨rfl, rfl⟩

theorem guarded_of_outOfFuel (ended : body.run start = (.outOfFuel, middle)) :
    (Activation.guarded clauses body handlers).run start = (.outOfFuel, middle) ∧
      (Activation.guarded clauses body handlers).trail start = body.trail start := by
  have looked := Computation.run_result_of_outOfFuel ended
  unfold Activation.guarded
  rw [Computation.run_bind_of_outOfFuel looked,
    Computation.trail_bind_of_ne_value (by simp [looked])]
  exact ⟨rfl, rfl⟩

theorem dispatch_of_none
    (untaken : Clause.select middle.machine.world.types error clauses = none) :
    (Activation.dispatch clauses error handlers).run middle = (.raised error, middle) ∧
      (Activation.dispatch clauses error handlers).trail middle = [⟨.select error, middle⟩] := by
  have route : Region.armed.raise middle.machine.world.types error clauses =
      .ok (.propagate, .propagating) := by
    simp only [Region.raise, untaken]
  unfold Activation.dispatch
  rw [Computation.run_bind_of_value rfl, Computation.trail_bind_of_value rfl,
    Computation.run_bind_of_value rfl, Computation.trail_bind_of_value rfl]
  simp only [id, route]
  exact ⟨rfl, rfl⟩

theorem dispatch_of_some
    (taken : Clause.select middle.machine.world.types error clauses = some index) :
    (Activation.dispatch clauses error handlers).run middle =
        (Activation.handle (.handling index) index error (handlers index error)).run middle ∧
      (Activation.dispatch clauses error handlers).trail middle =
        ⟨.select error, middle⟩ ::
          (Activation.handle (.handling index) index error
            (handlers index error)).trail middle := by
  have route : Region.armed.raise middle.machine.world.types error clauses =
      .ok (.handle index, .handling index) := by
    simp only [Region.raise, taken]
  unfold Activation.dispatch
  rw [Computation.run_bind_of_value rfl, Computation.trail_bind_of_value rfl,
    Computation.run_bind_of_value rfl, Computation.trail_bind_of_value rfl]
  simp only [id, route]
  exact ⟨rfl, rfl⟩

/-- A handler that comes to an end gives the region its result. -/
theorem handle_of_result {result : Except Error Value}
    (ended : handler.run (middle.handling error) = (.ofExcept result, last)) :
    (Activation.handle (.handling index) index error handler).run middle =
        (.ofExcept result, last.handled) ∧
      (Activation.handle (.handling index) index error handler).trail middle =
        ⟨.handle index error, middle.handling error⟩ ::
          (handler.trail (middle.handling error) ++ [⟨.finish, last.handled⟩]) := by
  have looked := Computation.run_result ended
  unfold Activation.handle Activation.enterHandler
  rw [Computation.run_bind_of_value rfl, Computation.trail_bind_of_value rfl]
  change (handler.result >>= _).run (middle.handling error) = _ ∧
    [_] ++ (handler.result >>= _).trail (middle.handling error) = _
  rw [Computation.run_bind_of_value looked, Computation.trail_bind_of_value looked]
  exact ⟨rfl, rfl⟩

theorem handler_trail_infix (index : Nat) (error : Error)
    (handler : Computation Activation Value) (middle : Activation) :
    handler.trail (middle.handling error) <:+:
      (Activation.handle (.handling index) index error handler).trail middle := by
  have during := Computation.trail_prefix_bind handler.result (fun result => do
    Activation.exitHandler
    let _ ← Computation.require (Region.handlerExit (!result.isOk) (.handling index))
    Computation.conclude result) (middle.handling error)
  unfold Activation.handle Activation.enterHandler
  rw [Computation.trail_bind_of_value rfl]
  exact during.isInfix.trans (List.suffix_append _ _).isInfix

theorem handle_of_outOfFuel
    (ended : handler.run (middle.handling error) = (.outOfFuel, last)) :
    (Activation.handle (.handling index) index error handler).run middle = (.outOfFuel, last) ∧
      (Activation.handle (.handling index) index error handler).trail middle =
        ⟨.handle index error, middle.handling error⟩ ::
          handler.trail (middle.handling error) := by
  have looked := Computation.run_result_of_outOfFuel ended
  unfold Activation.handle Activation.enterHandler
  rw [Computation.run_bind_of_value rfl, Computation.trail_bind_of_value rfl]
  change (handler.result >>= _).run (middle.handling error) = _ ∧
    [_] ++ (handler.result >>= _).trail (middle.handling error) = _
  rw [Computation.run_bind_of_outOfFuel looked,
    Computation.trail_bind_of_ne_value (by simp [looked])]
  exact ⟨rfl, rfl⟩

end Regions

/-! ## How calls run -/

section Calls

variable {name : Name} {body : Computation Machine Value} {machine last : Machine}
  {calls : CallStack}

/-- A function that comes to an end is left, and its error remembers that. -/
theorem within_of_result {result : Except Error Value}
    (pushed : machine.calls.push name = .ok calls)
    (ended : body.run { machine with calls } = (.ofExcept result, last))
    (same : last.calls = calls) :
    (Machine.within name body).run machine =
        (.ofExcept (result.mapError (·.leave name)), { last with calls := machine.calls }) ∧
      (Machine.within name body).trail machine =
        ⟨.enter name, { machine with calls }⟩ ::
          (body.trail { machine with calls } ++
            [⟨.leave name, { last with calls := machine.calls }⟩]) := by
  obtain ⟨entered, enterTrail⟩ := Machine.enter_of_ok pushed
  have looked := Computation.run_result ended
  have popped : last.calls.pop = .ok machine.calls := same ▸ CallStack.pop_of_push pushed
  obtain ⟨left, leaveTrail⟩ := Machine.leave_of_ok name popped
  unfold Machine.within
  rw [Computation.run_bind_of_value entered, Computation.run_bind_of_value looked,
    Computation.run_bind_of_value left, Computation.trail_bind_of_value entered,
    Computation.trail_bind_of_value looked, Computation.trail_bind_of_value left, enterTrail,
    leaveTrail]
  exact ⟨rfl, rfl⟩

theorem within_of_outOfFuel (pushed : machine.calls.push name = .ok calls)
    (ended : body.run { machine with calls } = (.outOfFuel, last)) :
    (Machine.within name body).run machine = (.outOfFuel, last) ∧
      (Machine.within name body).trail machine =
        ⟨.enter name, { machine with calls }⟩ :: body.trail { machine with calls } := by
  obtain ⟨entered, enterTrail⟩ := Machine.enter_of_ok pushed
  have looked := Computation.run_result_of_outOfFuel ended
  unfold Machine.within
  rw [Computation.run_bind_of_value entered, Computation.run_bind_of_outOfFuel looked,
    Computation.trail_bind_of_value entered,
    Computation.trail_bind_of_ne_value (by simp [looked]), enterTrail]
  exact ⟨rfl, rfl⟩

theorem within_of_refused (body : Computation Machine Value) {error : Error}
    (refused : machine.calls.push name = .error error) :
    (Machine.within name body).run machine = (.raised error, machine) ∧
      (Machine.within name body).trail machine =
        [⟨.refuse name, machine⟩, ⟨.raise error, machine⟩] := by
  obtain ⟨run, trail⟩ := Machine.enter_of_error refused
  unfold Machine.within
  rw [Computation.run_bind_of_raised run, Computation.trail_bind_of_ne_value (by simp [run]), trail]
  exact ⟨rfl, rfl⟩

end Calls

/-! ## Trails seen from outside -/

section Seen

variable {σ τ α : Type} {view : σ → Machine}

/-- A trail as a machine sees it. -/
def seen (view : σ → Machine) (trail : List (Moment σ)) : List (Moment Machine) :=
  trail.map (·.map view)

theorem seen_append (left right : List (Moment σ)) :
    seen view (left ++ right) = seen view left ++ seen view right :=
  List.map_append

/-- A machine sees no difference between a part of the state and the whole. -/
theorem seen_onPart {inside : τ → Machine} {part : σ → τ} {put : σ → τ → σ}
    {body : Computation τ α} {start : σ} (same : ∀ s t, view (put s t) = inside t) :
    seen view ((Computation.onPart part put body).trail start) =
      seen inside (body.trail (part start)) := by
  simp only [Computation.onPart, seen, List.map_map]
  exact List.map_congr_left fun moment _ => congrArg (Moment.mk moment.event) (same start _)

end Seen

/-! ## Layers -/

/-- Something that a run has begun and that has not ended at a point of the run. -/
inductive Layer where
  /-- The function with this name is running. -/
  | call (name : Name)
  /-- The body of a try region is running. -/
  | body (clauses : List Clause) (handlers : Nat → Error → Computation Activation Value)
  /-- The handler of this error is running. -/
  | handler (error : Error)
  /-- A host is waiting for a value or an error. -/
  | host

namespace Layer

/-- The functions that run in layers which are listed outermost first, innermost first. -/
def called : List Layer → List Name
  | [] => []
  | call name :: inner => called inner ++ [name]
  | _ :: inner => called inner

/-- The errors that are handled in layers which are listed outermost first, innermost first. -/
def handled : List Layer → List Error
  | [] => []
  | handler error :: inner => handled inner ++ [error]
  | _ :: inner => handled inner

theorem handled_append (outer inner : List Layer) :
    handled (outer ++ inner) = handled inner ++ handled outer := by
  induction outer with
  | nil => exact (List.append_nil _).symm
  | cons layer outer ih =>
      cases layer with
      | handler error =>
          rw [List.cons_append, handled, handled, ih, List.append_assoc]
      | body | call | host => exact ih

end Layer

/--
Running `whole` from `start` comes to running `part` from `point`, within these
layers, outermost first.
-/
inductive Reaches {τ β : Type} (inside : τ → Machine) (part : Computation τ β) (point : τ) :
    {σ α : Type} → (σ → Machine) → Computation σ α → σ → List Layer → Prop where
  | here : Reaches inside part point inside part point []
  | first {σ α γ : Type} {view : σ → Machine} {body : Computation σ α}
      {next : α → Computation σ γ} {start : σ} {layers : List Layer}
      (within : Reaches inside part point view body start layers) :
      Reaches inside part point view (body >>= next) start layers
  | next {σ α γ : Type} {view : σ → Machine} {body : Computation σ α}
      {next : α → Computation σ γ} {start middle : σ} {a : α} {layers : List Layer}
      (composed : Composed view body) (gave : body.run start = (.value a, middle))
      (within : Reaches inside part point view (next a) middle layers) :
      Reaches inside part point view (body >>= next) start layers
  | host {σ α : Type} {view : σ → Machine} {body : Computation σ α} {start : σ}
      {layers : List Layer} (within : Reaches inside part point view body start layers) :
      Reaches inside part point view body.attempt start (.host :: layers)
  | call {name : Name} {body : Computation Machine Value} {machine : Machine} {calls : CallStack}
      {layers : List Layer} (pushed : machine.calls.push name = .ok calls)
      (within : Reaches inside part point id body { machine with calls } layers) :
      Reaches inside part point id (Machine.within name body) machine (.call name :: layers)
  | body {clauses : List Clause} {body : Computation Activation Value}
      {handlers : Nat → Error → Computation Activation Value} {start : Activation}
      {layers : List Layer}
      (within : Reaches inside part point Activation.machine body start layers) :
      Reaches inside part point Activation.machine (Activation.guarded clauses body handlers) start
        (.body clauses handlers :: layers)
  | handler {clauses : List Clause} {body : Computation Activation Value}
      {handlers : Nat → Error → Computation Activation Value} {start middle : Activation}
      {error : Error} {index : Nat} {layers : List Layer}
      (composed : Composed Activation.machine body)
      (raised : body.run start = (.raised error, middle))
      (taken : Clause.select middle.machine.world.types error clauses = some index)
      (within : Reaches inside part point Activation.machine (handlers index error)
        (middle.handling error) layers) :
      Reaches inside part point Activation.machine (Activation.guarded clauses body handlers) start
        (.handler error :: layers)
  | onPart {σ ρ α : Type} {view : σ → Machine} {seen : ρ → Machine} {select : σ → ρ}
      {put : σ → ρ → σ} {body : Computation ρ α} {start : σ} {layers : List Layer}
      (before : ∀ s, seen (select s) = view s) (after : ∀ s t, view (put s t) = seen t)
      (within : Reaches inside part point seen body (select start) layers) :
      Reaches inside part point view (.onPart select put body) start layers

namespace Reaches

variable {τ β σ α : Type} {inside : τ → Machine} {part : Computation τ β} {point : τ}
  {view : σ → Machine} {whole : Computation σ α} {start : σ} {layers : List Layer}

/-- What happens in the part happens in the whole. -/
theorem trail_infix (reaches : Reaches inside part point view whole start layers) :
    seen inside (part.trail point) <:+: seen view (whole.trail start) := by
  induction reaches with
  | here => exact List.infix_rfl
  | first _ ih => exact ih.trans ((Computation.trail_prefix_bind _ _ _).map _).isInfix
  | next _ gave _ ih =>
      rw [Computation.trail_bind_of_value gave]
      exact ih.trans ((List.suffix_append _ _).map _).isInfix
  | @host _ _ _ body start _ _ ih =>
      have early : body.trail start <+: body.attempt.trail start :=
        Computation.trail_prefix_bind body.result _ start
      exact ih.trans (early.map _).isInfix
  | @call name body machine calls _ pushed _ ih =>
      obtain ⟨entered, _⟩ := Machine.enter_of_ok pushed
      unfold Machine.within
      rw [Computation.trail_bind_of_value entered]
      have during := Computation.trail_prefix_bind body.result (fun result => do
        Machine.leave name
        Computation.conclude (result.mapError (·.leave name))) { machine with calls }
      exact ih.trans ((during.isInfix.trans (List.suffix_append _ _).isInfix).map _)
  | body _ ih => exact ih.trans ((trail_prefix_guarded _ _ _ _).map _).isInfix
  | @handler clauses body handlers start middle error index _ _ raised taken _ ih =>
      obtain ⟨_, trail⟩ := guarded_of_raised clauses handlers raised
      obtain ⟨_, asked⟩ := dispatch_of_some clauses handlers taken
      have during := handler_trail_infix index error (handlers index error) middle
      rw [trail, asked]
      refine ih.trans (List.IsInfix.map _ ?_)
      exact during.trans ((List.suffix_cons _ _).trans (List.suffix_append _ _)).isInfix
  | onPart _ after _ ih =>
      rw [seen_onPart after]
      exact ih

/-- The functions that are running at the point have been called within the layers or before. -/
theorem frames_eq (reaches : Reaches inside part point view whole start layers) :
    (inside point).calls.frames =
      Layer.called layers ++ (view start).calls.frames := by
  induction reaches with
  | here => rfl
  | first _ ih => exact ih
  | next composed gave _ ih =>
      have settled := (composed.sound _).calls (by rw [gave]; exact nofun)
      rw [gave] at settled
      rw [ih, settled]
  | host _ ih => exact ih
  | call pushed _ ih =>
      rw [ih, Layer.called, List.append_assoc]
      exact congrArg _ (CallStack.push_eq_ok pushed).1
  | body _ ih => exact ih
  | handler composed raised _ _ ih =>
      have settled := (composed.sound _).calls (by rw [raised]; exact nofun)
      rw [raised] at settled
      rw [ih, ← settled]
      rfl
  | onPart before _ _ ih => rw [ih, before]

/-- The errors that are handled at the point are those of the handlers around it. -/
theorem handling_eq (reaches : Reaches inside part point view whole start layers) :
    (inside point).handling =
      Layer.handled layers ++ (view start).handling := by
  induction reaches with
  | here => rfl
  | first _ ih => exact ih
  | next composed gave _ ih =>
      have settled := (composed.sound _).handling (by rw [gave]; exact nofun)
      rw [gave] at settled
      rw [ih, settled]
  | host _ ih => exact ih
  | call _ _ ih => exact ih
  | body _ ih => exact ih
  | handler composed raised _ _ ih =>
      have settled := (composed.sound _).handling (by rw [raised]; exact nofun)
      rw [raised] at settled
      rw [ih, Layer.handled, List.append_assoc, ← settled]
      rfl
  | onPart before _ _ ih => rw [ih, before]

end Reaches

end Run

end ScriptCore
