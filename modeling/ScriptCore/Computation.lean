import ScriptCore.Defect
import ScriptCore.Event

/-!
# Computations

A computation takes a state to an outcome and a new state.  It may give a
value, raise an error, break an assertion of the interpreter or run out of the
nesting depth it was given.  After anything but a value, what would come next
is skipped, and the state stays as it was left.

What happens on the way is the trail of the computation.  It is part of what a
computation means and costs nothing while one runs.
-/

namespace ScriptCore

/-- How a computation ends. -/
inductive Outcome (α : Type) where
  | value (a : α)
  | raised (error : Error)
  | broken (defect : Defect)
  | outOfFuel

namespace Outcome

/-- The error of an outcome, if it has one. -/
def error? {α : Type} : Outcome α → Option Error
  | raised error => some error
  | _ => none

/-- The outcome of a step that either gives a value or raises an error. -/
def ofExcept {α : Type} : Except Error α → Outcome α
  | .ok a => value a
  | .error error => raised error

theorem error?_ofExcept_mapError {α : Type} (result : Except Error α) (f : Error → Error) :
    (ofExcept (result.mapError f)).error? = (ofExcept result).error?.map f := by
  cases result <;> rfl

theorem ofExcept_ne_outOfFuel {α : Type} (result : Except Error α) :
    ofExcept result ≠ outOfFuel := by
  cases result <;> exact nofun

/-- A run that neither breaks nor runs out of fuel gives a value or an error. -/
theorem exists_eq_ofExcept {α : Type} {outcome : Outcome α} (fueled : outcome ≠ outOfFuel)
    (unbroken : ∀ defect, outcome ≠ broken defect) : ∃ result, outcome = ofExcept result := by
  cases outcome with
  | value a => exact ⟨.ok a, rfl⟩
  | raised error => exact ⟨.error error, rfl⟩
  | broken defect => exact absurd rfl (unbroken defect)
  | outOfFuel => exact absurd rfl fueled

end Outcome

/-- A way from a state to an outcome and a state, and what happens on it. -/
structure Computation (σ α : Type) where
  run : σ → Outcome α × σ
  trail : σ → List (Moment σ)

namespace Computation

variable {σ τ α β : Type}

/-- Give a value and change nothing. -/
def pure (a : α) : Computation σ α where
  run s := (.value a, s)
  trail _ := []

/-- Go on with the value of a computation. -/
def bind (first : Computation σ α) (next : α → Computation σ β) : Computation σ β where
  run s :=
    match first.run s with
    | (.value a, s) => (next a).run s
    | (.raised error, s) => (.raised error, s)
    | (.broken defect, s) => (.broken defect, s)
    | (.outOfFuel, s) => (.outOfFuel, s)
  trail s :=
    match first.run s with
    | (.value a, middle) => first.trail s ++ (next a).trail middle
    | _ => first.trail s

instance : Monad (Computation σ) where
  pure := pure
  bind := bind

/-! ## Steps -/

/-- Look at the state for a value or an error. -/
def inspect (look : σ → Except Error α) : Computation σ α where
  run s := (.ofExcept (look s), s)
  trail s :=
    match look s with
    | .ok _ => []
    | .error error => [⟨.raise error, s⟩]

/-- Raise an error and change nothing. -/
def raise (error : Error) : Computation σ α := inspect fun _ => .error error

/-- The state. -/
def get : Computation σ σ := inspect .ok

/-- A change of the state that may raise an error instead. -/
def update (step : σ → Except Error (α × σ)) : Computation σ α where
  run s :=
    match step s with
    | .ok (a, s) => (.value a, s)
    | .error error => (.raised error, s)
  trail s :=
    match step s with
    | .ok (_, s) => [⟨.change, s⟩]
    | .error error => [⟨.raise error, s⟩]

/-- A change of the state that an event stands for. -/
def mark (event : Event) (change : σ → σ) : Computation σ Unit where
  run s := (.value (), change s)
  trail s := [⟨event, change s⟩]

/-- Require an assertion of the interpreter. -/
def require (asserted : Except Defect α) : Computation σ α where
  run s :=
    match asserted with
    | .ok a => (.value a, s)
    | .error defect => (.broken defect, s)
  trail _ := []

/-- Run out of nesting depth. -/
def exhausted : Computation σ α where
  run s := (.outOfFuel, s)
  trail _ := []

/-! ## Results -/

/-- Run a computation and go on whether it gives a value or an error. -/
def result (body : Computation σ α) : Computation σ (Except Error α) where
  run s :=
    match body.run s with
    | (.value a, s) => (.value (.ok a), s)
    | (.raised error, s) => (.value (.error error), s)
    | (.broken defect, s) => (.broken defect, s)
    | (.outOfFuel, s) => (.outOfFuel, s)
  trail := body.trail

/-- End with a result; an error that comes from before comes up no second time. -/
def conclude (result : Except Error α) : Computation σ α where
  run s := (.ofExcept result, s)
  trail _ := []

/-- Run a computation for a host that takes its error instead of passing it on. -/
def attempt (body : Computation σ α) : Computation σ (Except Error α) :=
  bind (result body) fun
    | .ok a => pure (.ok a)
    | .error error => bind (mark (.receive error) id) fun _ => pure (.error error)

/-- Run a computation several times. -/
def repeated (count : Nat) (body : Computation σ α) : Computation σ Unit :=
  match count with
  | 0 => pure ()
  | count + 1 => bind body fun _ => repeated count body

/-- A computation on a part of the state. -/
def onPart (part : τ → σ) (put : τ → σ → τ) (inner : Computation σ α) : Computation τ α where
  run t :=
    let (outcome, s) := inner.run (part t)
    (outcome, put t s)
  trail t := (inner.trail (part t)).map (·.map (put t))

/-! ## Sequences -/

section Bind

variable {first : Computation σ α} {s t : σ}

theorem run_bind_of_value {a : α} (given : first.run s = (.value a, t))
    (next : α → Computation σ β) : (first >>= next).run s = (next a).run t := by
  change (bind first next).run s = (next a).run t
  simp only [bind, given]

theorem trail_bind_of_value {a : α} (given : first.run s = (.value a, t))
    (next : α → Computation σ β) :
    (first >>= next).trail s = first.trail s ++ (next a).trail t := by
  change (bind first next).trail s = first.trail s ++ (next a).trail t
  simp only [bind, given]

theorem run_bind_of_raised {error : Error} (raised : first.run s = (.raised error, t))
    (next : α → Computation σ β) : (first >>= next).run s = (.raised error, t) := by
  change (bind first next).run s = (.raised error, t)
  simp only [bind, raised]

theorem run_bind_of_broken {defect : Defect} (broken : first.run s = (.broken defect, t))
    (next : α → Computation σ β) : (first >>= next).run s = (.broken defect, t) := by
  change (bind first next).run s = (.broken defect, t)
  simp only [bind, broken]

theorem run_bind_of_outOfFuel (ended : first.run s = (.outOfFuel, t))
    (next : α → Computation σ β) : (first >>= next).run s = (.outOfFuel, t) := by
  change (bind first next).run s = (.outOfFuel, t)
  simp only [bind, ended]

/-- A sequence gives a value exactly where both of its parts do. -/
theorem run_bind_eq_value_iff {next : α → Computation σ β} {b : β} :
    (first >>= next).run s = (.value b, t) ↔
      ∃ a middle, first.run s = (.value a, middle) ∧ (next a).run middle = (.value b, t) := by
  constructor
  · intro gave
    change (bind first next).run s = (.value b, t) at gave
    simp only [bind] at gave
    split at gave
    · next a middle given => exact ⟨a, middle, given, gave⟩
    all_goals cases gave
  · rintro ⟨a, middle, given, gave⟩
    exact (run_bind_of_value given next).trans gave

theorem run_result {result : Except Error α} (ended : first.run s = (.ofExcept result, t)) :
    first.result.run s = (.value result, t) := by
  cases result <;> simp only [Computation.result, ended, Outcome.ofExcept]

theorem run_result_of_outOfFuel (ended : first.run s = (.outOfFuel, t)) :
    first.result.run s = (.outOfFuel, t) := by
  simp only [result, ended]

/-- After anything but a value nothing more happens. -/
theorem trail_bind_of_ne_value (ended : ∀ a, (first.run s).1 ≠ .value a)
    (next : α → Computation σ β) : (first >>= next).trail s = first.trail s := by
  change (bind first next).trail s = first.trail s
  simp only [bind]
  split
  · rename_i a _ given
    exact absurd (congrArg Prod.fst given) (ended a)
  · rfl

/-- After anything but a value the state stays as it was left. -/
theorem state_bind_of_ne_value (ended : ∀ a, (first.run s).1 ≠ .value a)
    (next : α → Computation σ β) : ((first >>= next).run s).2 = (first.run s).2 := by
  change ((bind first next).run s).2 = (first.run s).2
  simp only [bind]
  split
  · rename_i a _ given
    exact absurd (congrArg Prod.fst given) (ended a)
  · next given => rw [given]
  · next given => rw [given]
  · next given => rw [given]

/-- What comes next does not change what has happened. -/
theorem trail_prefix_bind (first : Computation σ α) (next : α → Computation σ β) (s : σ) :
    first.trail s <+: (first >>= next).trail s := by
  change first.trail s <+: (bind first next).trail s
  simp only [bind]
  split
  · exact List.prefix_append _ _
  · exact List.prefix_rfl

end Bind

/-! ## Computations that agree -/

/-- From here the computations do the same and end the same. -/
def Agree (one other : Computation σ α) (s : σ) : Prop :=
  one.run s = other.run s ∧ one.trail s = other.trail s

namespace Agree

variable {one middle other : Computation σ α} {s : σ}

theorem refl (body : Computation σ α) (s : σ) : body.Agree body s := ⟨rfl, rfl⟩

theorem symm (agree : one.Agree other s) : other.Agree one s := ⟨agree.1.symm, agree.2.symm⟩

theorem trans (left : one.Agree middle s) (right : middle.Agree other s) : one.Agree other s :=
  ⟨left.1.trans right.1, left.2.trans right.2⟩

theorem onPart (part : τ → σ) (put : τ → σ → τ) (t : τ) (agree : one.Agree other (part t)) :
    (Computation.onPart part put one).Agree (.onPart part put other) t := by
  constructor
  · simp only [Computation.onPart, agree.1]
  · simp only [Computation.onPart, agree.2]

theorem result (agree : one.Agree other s) : one.result.Agree other.result s := by
  constructor
  · simp only [Computation.result, agree.1]
  · exact agree.2

/-- Sequences agree if they begin alike and go on alike with every value they come to. -/
theorem bind {next after : α → Computation σ β} (start : one.Agree other s)
    (rest : ∀ a t, one.run s = (.value a, t) → (next a).Agree (after a) t) :
    (one >>= next).Agree (other >>= after) s := by
  have stops (ended : ∀ a, (one.run s).1 ≠ .value a) :
      (one >>= next).trail s = (other >>= after).trail s := by
    rw [trail_bind_of_ne_value ended, trail_bind_of_ne_value (start.1 ▸ ended), start.2]
  cases ended : one.run s with
  | mk outcome t =>
      have same : other.run s = (outcome, t) := start.1.symm.trans ended
      cases outcome with
      | value a =>
          have agree := rest a t ended
          constructor
          · rw [run_bind_of_value ended, run_bind_of_value same, agree.1]
          · rw [trail_bind_of_value ended, trail_bind_of_value same, start.2, agree.2]
      | raised error =>
          exact ⟨(run_bind_of_raised ended next).trans (run_bind_of_raised same after).symm,
            stops (by simp [ended])⟩
      | broken defect =>
          exact ⟨(run_bind_of_broken ended next).trans (run_bind_of_broken same after).symm,
            stops (by simp [ended])⟩
      | outOfFuel =>
          exact ⟨(run_bind_of_outOfFuel ended next).trans
            (run_bind_of_outOfFuel same after).symm, stops (by simp [ended])⟩

end Agree

/-- A look that finds something leads to what comes of it, and nothing happens. -/
theorem agree_inspect_bind_of_ok (look : σ → Except Error α) {s : σ} {a : α}
    (found : look s = .ok a) (next : α → Computation σ β) :
    (inspect look >>= next).Agree (next a) s := by
  have looked : (inspect look).run s = (.value a, s) := by
    simp only [inspect, found, Outcome.ofExcept]
  refine ⟨run_bind_of_value looked next, (trail_bind_of_value looked next).trans ?_⟩
  simp only [inspect, found, List.nil_append]

/-- After a look that finds an error nothing comes. -/
theorem agree_inspect_bind_of_error (look : σ → Except Error α) {s : σ} {error : Error}
    (found : look s = .error error) (next : α → Computation σ β) :
    (inspect look >>= next).Agree (raise error) s := by
  have looked : (inspect look).run s = (.raised error, s) := by
    simp only [inspect, found, Outcome.ofExcept]
  refine ⟨run_bind_of_raised looked next, ?_⟩
  refine (trail_bind_of_ne_value (fun a gave => ?_) next).trans ?_
  · rw [looked] at gave
    cases gave
  · simp only [inspect, found, raise]

end Computation

end ScriptCore
