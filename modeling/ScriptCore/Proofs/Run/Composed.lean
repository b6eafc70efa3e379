import ScriptCore.Call
import ScriptCore.Proofs.Run.Path

/-!
# Composed computations

A composed computation reaches the call stack and the handled errors through
calls and try regions only.  It may do everything else with the world, and it
may go on in any way it likes with the values and the errors it gets.  Whatever
is composed leaves calls and handled errors as it found them.
-/

namespace ScriptCore

namespace Run

/-- What a host or a function body can be composed of, in a state that has a machine. -/
inductive Composed : {σ α : Type} → (σ → Machine) → Computation σ α → Prop where
  | pure {σ α : Type} {view : σ → Machine} (a : α) : Composed view (.pure a)
  | bind {σ α β : Type} {view : σ → Machine} {first : Computation σ α}
      {next : α → Computation σ β} (left : Composed view first)
      (right : ∀ a, Composed view (next a)) : Composed view (first >>= next)
  | inspect {σ α : Type} {view : σ → Machine} (look : σ → Except Error α) :
      Composed view (.inspect look)
  | update {σ α : Type} {view : σ → Machine} {step : σ → Except Error (α × σ)}
      (calls : ∀ {s a t}, step s = .ok (a, t) → (view t).calls = (view s).calls)
      (handling : ∀ {s a t}, step s = .ok (a, t) → (view t).handling = (view s).handling) :
      Composed view (.update step)
  | attempt {σ α : Type} {view : σ → Machine} {body : Computation σ α}
      (inner : Composed view body) : Composed view body.attempt
  | within {name : Name} {body : Computation Machine Value} (inner : Composed id body) :
      Composed id (Machine.within name body)
  | guarded {clauses : List Clause} {body : Computation Activation Value}
      {handler : Nat → Error → Computation Activation Value}
      (inner : Composed Activation.machine body)
      (handlers : ∀ index error, Composed Activation.machine (handler index error)) :
      Composed Activation.machine (Activation.guarded clauses body handler)
  | onPart {σ τ α : Type} {view : τ → Machine} {inside : σ → Machine} {part : τ → σ}
      {put : τ → σ → τ} {body : Computation σ α} (start : ∀ t, inside (part t) = view t)
      (finish : ∀ t s, view (put t s) = inside s) (inner : Composed inside body) :
      Composed view (.onPart part put body)
  | exhausted {σ α : Type} {view : σ → Machine} :
      Composed view (.exhausted : Computation σ α)

/-! ## What holds of every run -/

/--
A run that breaks no assertion, follows a path and, unless it runs out of fuel,
ends with these calls and handled errors.
-/
structure Lawful {σ α : Type} (view : σ → Machine) (flight : Option Error) (start : σ)
    (trail : List (Moment σ)) (ended : Outcome α × σ) (calls : CallStack)
    (handling : List Error) : Prop where
  path : Path ⟨view start, flight⟩ (trail.map (·.map view)) ⟨view ended.2, ended.1.error?⟩
  unbroken : ∀ defect, ended.1 ≠ .broken defect
  calls : ended.1 ≠ .outOfFuel → (view ended.2).calls = calls
  handling : ended.1 ≠ .outOfFuel → (view ended.2).handling = handling

/-- All runs are lawful and end with the calls and handled errors they started with. -/
def Sound {σ α : Type} (view : σ → Machine) (body : Computation σ α) : Prop :=
  ∀ start, Lawful view none start (body.trail start) (body.run start) (view start).calls
    (view start).handling

section

variable {σ α β : Type} {view : σ → Machine} {flight : Option Error} {start : σ}
  {calls : CallStack} {handling : List Error}

theorem lawful_conclude (result : Except Error α) (sameCalls : (view start).calls = calls)
    (sameHandling : (view start).handling = handling) :
    Lawful view (Outcome.ofExcept result).error? start [] (.ofExcept result, start) calls
      handling where
  path := .done _
  unbroken _ := by cases result <;> exact nofun
  calls _ := sameCalls
  handling _ := sameHandling

theorem lawful_raise (error : Error) (s : σ) :
    Lawful view none s [⟨.raise error, s⟩] ((.raised error : Outcome α), s) (view s).calls
      (view s).handling where
  path := .single (.raise error)
  unbroken _ := nofun
  calls _ := rfl
  handling _ := rfl

theorem lawful_outOfFuel {trail : List (Moment σ)} {last : σ}
    (path : Path ⟨view start, flight⟩ (trail.map (·.map view)) ⟨view last, none⟩) :
    Lawful view flight start trail ((.outOfFuel : Outcome α), last) calls handling where
  path := path
  unbroken _ := nofun
  calls fueled := absurd rfl fueled
  handling fueled := absurd rfl fueled

/-- What comes after a part of a run continues it. -/
theorem Lawful.prepend {next : σ} {carried : Option Error} {left right : List (Moment σ)}
    {ended : Outcome α × σ}
    (after : Lawful view carried next right ended calls handling)
    (before : Path ⟨view start, flight⟩ (left.map (·.map view)) ⟨view next, carried⟩) :
    Lawful view flight start (left ++ right) ended calls handling where
  path := by
    rw [List.map_append]
    exact before.append after.path
  unbroken := after.unbroken
  calls := after.calls
  handling := after.handling

/-- A lawful run either gives a result or runs out of fuel. -/
theorem Lawful.exists_result {trail : List (Moment σ)} {ended : Outcome α × σ}
    (lawful : Lawful view flight start trail ended calls handling) :
    (∃ result, ended = (.ofExcept result, ended.2)) ∨ ended = (.outOfFuel, ended.2) := by
  by_cases fueled : ended.1 = .outOfFuel
  · exact .inr (Prod.ext fueled rfl)
  · obtain ⟨result, gave⟩ := Outcome.exists_eq_ofExcept fueled lawful.unbroken
    exact .inl ⟨result, Prod.ext gave rfl⟩

/-- A body whose result is looked at is followed by what is done with the result. -/
theorem Lawful.result_bind {body : Computation σ α} {next : Except Error α → Computation σ β}
    {inner : CallStack} {handled : List Error}
    (before : Lawful view flight start (body.trail start) (body.run start) inner handled)
    (after : ∀ result middle, (view middle).calls = inner → (view middle).handling = handled →
      Lawful view (Outcome.ofExcept result).error? middle ((next result).trail middle)
        ((next result).run middle) calls handling) :
    Lawful view flight start ((body.result >>= next).trail start)
      ((body.result >>= next).run start) calls handling := by
  rcases before.exists_result with ⟨result, ended⟩ | ended
  · have looked := Computation.run_result ended
    have fueled : Outcome.ofExcept result ≠ .outOfFuel := by cases result <;> exact nofun
    rw [Computation.run_bind_of_value looked, Computation.trail_bind_of_value looked]
    rw [ended] at before
    exact (after result _ (before.calls fueled) (before.handling fueled)).prepend before.path
  · have looked := Computation.run_result_of_outOfFuel ended
    rw [Computation.run_bind_of_outOfFuel looked,
      Computation.trail_bind_of_ne_value (by simp [looked])]
    rw [ended] at before
    exact lawful_outOfFuel before.path

/-! ## Steps and sequences -/

theorem sound_pure (a : α) : Sound view (.pure a) :=
  fun _ => lawful_conclude (.ok a) rfl rfl

theorem sound_inspect (look : σ → Except Error α) : Sound view (.inspect look) := by
  intro s
  simp only [Computation.inspect]
  cases look s with
  | ok a => exact lawful_conclude (.ok a) rfl rfl
  | error error => exact lawful_raise error s

theorem sound_update {step : σ → Except Error (α × σ)}
    (calls : ∀ {s a t}, step s = .ok (a, t) → (view t).calls = (view s).calls)
    (handling : ∀ {s a t}, step s = .ok (a, t) → (view t).handling = (view s).handling) :
    Sound view (.update step) := by
  intro s
  simp only [Computation.update]
  cases stepped : step s with
  | ok result =>
      obtain ⟨a, t⟩ := result
      exact ⟨.single (.change (calls stepped) (handling stepped)), nofun,
        fun _ => calls stepped, fun _ => handling stepped⟩
  | error error => exact lawful_raise error s

theorem sound_exhausted : Sound view (.exhausted : Computation σ α) :=
  fun _ => lawful_outOfFuel (.done _)

theorem sound_bind {first : Computation σ α} {next : α → Computation σ β}
    (left : Sound view first) (right : ∀ a, Sound view (next a)) :
    Sound view (first >>= next) := by
  intro start
  have before := left start
  cases ended : first.run start with
  | mk outcome middle =>
      rw [ended] at before
      cases outcome with
      | value a =>
          have after := right a middle
          rw [before.calls nofun, before.handling nofun] at after
          rw [Computation.run_bind_of_value ended, Computation.trail_bind_of_value ended]
          exact after.prepend before.path
      | raised error =>
          rw [Computation.run_bind_of_raised ended,
            Computation.trail_bind_of_ne_value (by simp [ended])]
          exact ⟨before.path, nofun, fun _ => before.calls nofun, fun _ => before.handling nofun⟩
      | broken defect => exact absurd rfl (before.unbroken defect)
      | outOfFuel =>
          rw [Computation.run_bind_of_outOfFuel ended,
            Computation.trail_bind_of_ne_value (by simp [ended])]
          exact lawful_outOfFuel before.path

theorem sound_attempt {body : Computation σ α} (inner : Sound view body) :
    Sound view body.attempt := by
  intro start
  refine (inner start).result_bind fun result middle calls handling => ?_
  cases result with
  | ok a => exact lawful_conclude (Except.ok (Except.ok a)) calls handling
  | error error =>
      exact (lawful_conclude (Except.ok (Except.error error)) calls handling).prepend
        (.single (.receive error))

theorem sound_onPart {τ : Type} {inside : τ → Machine} {part : σ → τ} {put : σ → τ → σ}
    {body : Computation τ α} (begins : ∀ s, inside (part s) = view s)
    (ends : ∀ s t, view (put s t) = inside t) (inner : Sound inside body) :
    Sound view (.onPart part put body) := by
  intro s
  have lawful := inner (part s)
  have seen : ((body.trail (part s)).map (·.map (put s))).map (·.map view) =
      (body.trail (part s)).map (·.map inside) := by
    rw [List.map_map]
    exact List.map_congr_left fun moment _ => congrArg (Moment.mk moment.event) (ends s _)
  rw [begins] at lawful
  exact
    { path := by
        simp only [Computation.onPart, seen, ends, ← begins]
        exact lawful.path
      unbroken := lawful.unbroken
      calls := fun fueled => (congrArg Machine.calls (ends s _)).trans (lawful.calls fueled)
      handling := fun fueled =>
        (congrArg Machine.handling (ends s _)).trans (lawful.handling fueled) }

end

/-! ## Calls -/

/-- A function that has run is left again, and its error remembers it. -/
theorem sound_within {name : Name} {body : Computation Machine Value} (inner : Sound id body) :
    Sound id (Machine.within name body) := by
  intro machine
  unfold Machine.within
  cases pushed : machine.calls.push name with
  | error error =>
      obtain ⟨refused, trail⟩ := Machine.enter_of_error pushed
      rw [Computation.run_bind_of_raised refused,
        Computation.trail_bind_of_ne_value (by simp [refused]), trail]
      change Lawful id none machine ([⟨.refuse name, machine⟩] ++ [⟨.raise error, machine⟩]) _ _ _
      exact (lawful_raise error machine).prepend (.single (.refuse pushed))
  | ok calls =>
      obtain ⟨entered, trail⟩ := Machine.enter_of_ok pushed
      rw [Computation.run_bind_of_value entered, Computation.trail_bind_of_value entered, trail]
      refine ((inner _).result_bind ?_).prepend (.single (.enter pushed))
      intro result last same handling
      obtain ⟨frames, limit⟩ := CallStack.push_eq_ok pushed
      have running : last.calls = calls := same
      have popped : last.calls.pop = .ok machine.calls := running ▸ CallStack.pop_of_push pushed
      obtain ⟨left, trail⟩ := Machine.leave_of_ok name popped
      have out : Step ⟨last, (Outcome.ofExcept result).error?⟩ (.leave name)
          ⟨{ last with calls := machine.calls },
            (Outcome.ofExcept (result.mapError (·.leave name))).error?⟩ := by
        rw [Outcome.error?_ofExcept_mapError]
        exact .leave (running ▸ frames) (running ▸ limit)
      rw [Computation.run_bind_of_value left, Computation.trail_bind_of_value left, trail]
      have closing : Lawful id _ { last with calls := machine.calls } [] _ machine.calls
          machine.handling := lawful_conclude (result.mapError (·.leave name)) rfl handling
      exact closing.prepend (.single out)

/-! ## Try regions -/

section Regions

variable {error : Error} {handler : Computation Activation Value}

/-- A handler takes the error out of flight and ends as the innermost one. -/
theorem lawful_handle (index : Nat) (inner : Sound Activation.machine handler)
    (start : Activation) :
    Lawful Activation.machine (some error) start
      ((Activation.handle (.handling index) index error handler).trail start)
      ((Activation.handle (.handling index) index error handler).run start)
      start.machine.calls start.machine.handling := by
  unfold Activation.handle Activation.enterHandler
  rw [Computation.run_bind_of_value rfl, Computation.trail_bind_of_value rfl]
  refine ((inner _).result_bind ?_).prepend (.single (.handle index error))
  intro result last calls handling
  rw [Computation.run_bind_of_value rfl, Computation.trail_bind_of_value rfl]
  have outer : last.machine.handling.tail = start.machine.handling := by
    rw [handling]
    rfl
  have out : Step ⟨last.machine, (Outcome.ofExcept result).error?⟩ .finish
      ⟨{ last.machine with handling := last.machine.handling.tail },
        (Outcome.ofExcept result).error?⟩ := by
    rw [outer]
    exact .finish handling
  have closing : Lawful Activation.machine _
      { last with machine := { last.machine with handling := last.machine.handling.tail } } [] _
      start.machine.calls start.machine.handling := lawful_conclude result calls outer
  exact closing.prepend (.single out)

/-- The clauses of a region see the error, and it lands in a handler or goes on. -/
theorem lawful_dispatch {clauses : List Clause}
    {handlers : Nat → Error → Computation Activation Value}
    (inner : ∀ index error, Sound Activation.machine (handlers index error)) (error : Error)
    (start : Activation) :
    Lawful Activation.machine (some error) start
      ((Activation.dispatch clauses error handlers).trail start)
      ((Activation.dispatch clauses error handlers).run start)
      start.machine.calls start.machine.handling := by
  unfold Activation.dispatch
  rw [Computation.run_bind_of_value rfl, Computation.trail_bind_of_value rfl]
  refine Lawful.prepend ?_ (.single (.select error))
  rw [Computation.run_bind_of_value rfl, Computation.trail_bind_of_value rfl]
  cases chosen : Clause.select start.machine.world.types error clauses with
  | none =>
      have route : Region.armed.raise start.machine.world.types error clauses =
          .ok (.propagate, .propagating) := by
        simp only [Region.raise, chosen]
      simp only [id, route]
      exact lawful_conclude (Except.error error) rfl rfl
  | some index =>
      have route : Region.armed.raise start.machine.world.types error clauses =
          .ok (.handle index, .handling index) := by
        simp only [Region.raise, chosen]
      simp only [id, route]
      exact lawful_handle index (inner index error) start

theorem sound_guarded {clauses : List Clause} {body : Computation Activation Value}
    {handlers : Nat → Error → Computation Activation Value}
    (inner : Sound Activation.machine body)
    (guards : ∀ index error, Sound Activation.machine (handlers index error)) :
    Sound Activation.machine (Activation.guarded clauses body handlers) := by
  intro start
  refine (inner start).result_bind fun result middle calls handling => ?_
  rw [← calls, ← handling]
  cases result with
  | ok value => exact lawful_conclude (Except.ok value) rfl rfl
  | error error => exact lawful_dispatch guards error middle

end Regions

/-- Whatever is composed of calls and regions runs lawfully from every state. -/
theorem Composed.sound {σ α : Type} {view : σ → Machine} {body : Computation σ α}
    (composed : Composed view body) : Sound view body := by
  induction composed with
  | pure a => exact sound_pure a
  | bind _ _ left right => exact sound_bind left right
  | inspect look => exact sound_inspect look
  | update calls handling => exact sound_update calls handling
  | attempt _ inner => exact sound_attempt inner
  | within _ inner => exact sound_within inner
  | guarded _ _ inner handlers => exact sound_guarded inner handlers
  | onPart start finish _ inner => exact sound_onPart start finish inner
  | exhausted => exact sound_exhausted

end Run

end ScriptCore
