import ScriptCore.Proofs.Errors.Builtins

/-!
# Computations with well-formed errors

A computation is safe if from every proper state it ends in a proper state, with a
value that has a property or with a proper error, and if this is also true of all that
happens on the way.  Types only grow, so what is known of a value stays true of it.
-/

namespace ScriptCore

/-- A state that knows types, and what it means that all errors in it are well formed. -/
class Scene (σ : Type) where
  types : σ → Registry
  Proper : σ → Prop

instance : Scene Machine := ⟨fun machine => machine.world.types, Machine.Proper⟩

instance : Scene Activation :=
  ⟨fun activation => activation.machine.world.types, Activation.Proper⟩

/-- The error that an event is about. -/
def Event.error? : Event → Option Error
  | .raise error | .select error | .handle _ error | .receive error => some error
  | _ => none

/-- At this moment of a run that starts with these types nothing is improper. -/
structure Moment.Clean {σ : Type} [Scene σ] (start : Registry) (moment : Moment σ) : Prop where
  state : Scene.Proper moment.state
  grows : start.Grows (Scene.types moment.state)
  error : ∀ error ∈ moment.event.error?, error.Proper (Scene.types moment.state)

/-- A value that comes out has the property, an error that comes out is proper. -/
def Outcome.Gives {α : Type} (types : Registry) (gives : Registry → α → Prop) : Outcome α → Prop
  | .value a => gives types a
  | .raised error => error.Proper types
  | .broken _ | .outOfFuel => True

/-- Nothing improper is met on a run that starts with these types, nor at its end. -/
structure Clean {σ α : Type} [Scene σ] (start : Registry) (trail : List (Moment σ))
    (ended : Outcome α × σ) (gives : Registry → α → Prop) : Prop where
  moment : ∀ moment ∈ trail, moment.Clean start
  last : Scene.Proper ended.2
  grows : start.Grows (Scene.types ended.2)
  outcome : ended.1.Gives (Scene.types ended.2) gives

/-- From every proper state with at least the known types all runs are clean. -/
def Safe {σ α : Type} [Scene σ] (known : Registry) (body : Computation σ α)
    (gives : Registry → α → Prop) : Prop :=
  ∀ s : σ, Scene.Proper s → known.Grows (Scene.types s) →
    Clean (Scene.types s) (body.trail s) (body.run s) gives

section Safety

variable {σ τ α β : Type} [Scene σ] [Scene τ] {known later : Registry}
  {gives : Registry → α → Prop} {middle : Registry → β → Prop}

theorem Answers.mono {types later : Registry} {result : Except Error Value}
    (grows : types.Grows later) (answers : Answers types (Value.Proper types) result) :
    Answers later (Value.Proper later) result := by
  cases result with
  | ok value => exact Value.Proper.mono grows answers
  | error error => exact Error.Proper.mono grows answers

/-! ## Steps -/

theorem clean_quiet {start : Registry} {event : Event} (quiet : event.error? = none) {s : σ}
    (proper : Scene.Proper s) (grows : start.Grows (Scene.types s)) :
    Moment.Clean start ⟨event, s⟩ where
  state := proper
  grows := grows
  error := by
    intro error same
    rw [quiet] at same
    cases same

theorem clean_raise {s : σ} {error : Error} (proper : Scene.Proper s)
    (raised : error.Proper (Scene.types s)) :
    Moment.Clean (Scene.types s) ⟨.raise error, s⟩ where
  state := proper
  grows := .refl _
  error := by
    intro other same
    cases same
    exact raised

theorem clean_conclude {s : σ} (proper : Scene.Proper s) {result : Except Error α}
    (answers : Answers (Scene.types s) (gives (Scene.types s)) result) :
    Clean (Scene.types s) [] (.ofExcept result, s) gives where
  moment := List.forall_mem_nil _
  last := proper
  grows := .refl _
  outcome := by cases result <;> exact answers

theorem safe_pure {a : α} (holds : ∀ later, known.Grows later → gives later a) :
    Safe known (.pure a : Computation σ α) gives := by
  intro s proper grows
  have so : Answers (Scene.types s) (gives (Scene.types s)) (.ok a) := holds _ grows
  exact clean_conclude proper so

theorem safe_conclude {result : Except Error Value}
    (answers : Answers known (Value.Proper known) result) :
    Safe known (.conclude result : Computation σ Value) Value.Proper :=
  fun _ proper grows => clean_conclude proper (answers.mono grows)

theorem safe_exhausted : Safe known (.exhausted : Computation σ α) gives :=
  fun _ proper _ => ⟨List.forall_mem_nil _, proper, .refl _, trivial⟩

theorem safe_require {asserted : Except Defect α} :
    Safe known (.require asserted : Computation σ α) fun _ _ => True := by
  intro s proper _
  cases asserted <;> exact ⟨List.forall_mem_nil _, proper, .refl _, trivial⟩

theorem safe_inspect {look : σ → Except Error α}
    (answers : ∀ s, Scene.Proper s → known.Grows (Scene.types s) →
      Answers (Scene.types s) (gives (Scene.types s)) (look s)) :
    Safe known (.inspect look) gives := by
  intro s proper grows
  have so := answers s proper grows
  have ended := clean_conclude proper so
  refine { ended with moment := ?_ }
  simp only [Computation.inspect]
  cases looked : look s with
  | ok a => exact List.forall_mem_nil _
  | error error =>
      exact List.forall_mem_singleton.mpr (clean_raise proper (so.of_error looked))

theorem safe_mark {event : Event} {change : σ → σ}
    (changes : ∀ s, Scene.Proper s → known.Grows (Scene.types s) →
      Scene.Proper (change s) ∧ Scene.types (change s) = Scene.types s ∧
        ∀ error ∈ event.error?, error.Proper (Scene.types s)) :
    Safe known (.mark event change) fun _ _ => True := by
  intro s proper grows
  obtain ⟨after, same, errors⟩ := changes s proper grows
  have kept : (Scene.types s).Grows (Scene.types (change s)) := same ▸ .refl _
  exact ⟨List.forall_mem_singleton.mpr ⟨after, kept, same ▸ errors⟩, after, kept, trivial⟩

theorem safe_update {step : σ → Except Error (α × σ)}
    (answers : ∀ s, Scene.Proper s → known.Grows (Scene.types s) →
      Answers (Scene.types s) (fun made => Scene.Proper made.2 ∧
        (Scene.types s).Grows (Scene.types made.2) ∧ gives (Scene.types made.2) made.1) (step s)) :
    Safe known (.update step) gives := by
  intro s proper grows
  have so := answers s proper grows
  simp only [Computation.update]
  cases stepped : step s with
  | ok made =>
      obtain ⟨after, kept, holds⟩ := so.of_ok stepped
      exact ⟨List.forall_mem_singleton.mpr (clean_quiet rfl after kept), after, kept, holds⟩
  | error error =>
      have raised := so.of_error stepped
      exact ⟨List.forall_mem_singleton.mpr (clean_raise proper raised), proper, .refl _, raised⟩

/-! ## Sequences -/

theorem Clean.prepend {start between : Registry} {left right : List (Moment σ)}
    {ended : Outcome α × σ} (after : Clean between right ended gives)
    (before : ∀ moment ∈ left, moment.Clean start) (grows : start.Grows between) :
    Clean start (left ++ right) ended gives where
  moment := by
    refine List.forall_mem_append.mpr ⟨before, fun moment member => ?_⟩
    have clean := after.moment moment member
    exact { clean with grows := grows.trans clean.grows }
  last := after.last
  grows := grows.trans after.grows
  outcome := after.outcome

theorem Safe.weaken (safe : Safe known (body : Computation σ α) gives)
    (grows : known.Grows later) : Safe later body gives :=
  fun s proper further => safe s proper (grows.trans further)

theorem Safe.bind {first : Computation σ β} {next : β → Computation σ α}
    (safe : Safe known first middle)
    (further : ∀ later b, known.Grows later → middle later b → Safe later (next b) gives) :
    Safe known (first >>= next) gives := by
  intro s proper grows
  have before := safe s proper grows
  change Clean _ ((Computation.bind first next).trail s) ((Computation.bind first next).run s) _
  simp only [Computation.bind]
  cases ended : first.run s with
  | mk outcome t =>
      rw [ended] at before
      cases outcome with
      | value b =>
          -- The second part starts where the first has ended, with at least the types it left.
          have after := further _ b (grows.trans before.grows) before.outcome t before.last
            (.refl _)
          exact after.prepend before.moment before.grows
      | raised error => exact ⟨before.moment, before.last, before.grows, before.outcome⟩
      | broken defect => exact ⟨before.moment, before.last, before.grows, trivial⟩
      | outOfFuel => exact ⟨before.moment, before.last, before.grows, trivial⟩

/-- Look at the state and go on with what is found there. -/
theorem Safe.look {look : σ → Except Error β} {next : β → Computation σ α}
    (middle : Registry → β → Prop)
    (answers : ∀ s, Scene.Proper s → known.Grows (Scene.types s) →
      Answers (Scene.types s) (middle (Scene.types s)) (look s))
    (further : ∀ later b, known.Grows later → middle later b → Safe later (next b) gives) :
    Safe known (.inspect look >>= next) gives :=
  (safe_inspect answers).bind further

theorem Safe.result {body : Computation σ α} (safe : Safe known body gives) :
    Safe known body.result fun types result => Answers types (gives types) result := by
  intro s proper grows
  have before := safe s proper grows
  simp only [Computation.result]
  cases ended : body.run s with
  | mk outcome t =>
      rw [ended] at before
      cases outcome <;> exact ⟨before.moment, before.last, before.grows, before.outcome⟩

theorem Safe.repeated {body : Computation σ α} (safe : Safe known body gives) (count : Nat) :
    Safe known (.repeated count body) fun _ _ => True := by
  induction count generalizing known with
  | zero => exact safe_pure fun _ _ => trivial
  | succ count ih => exact safe.bind fun later _ grows _ => ih (safe.weaken grows)

/-- What is safe on a part of a state is safe on the whole, if the rest stays proper. -/
theorem Safe.onPart {part : τ → σ} {put : τ → σ → τ} {body : Computation σ α}
    (start : ∀ t, Scene.Proper t → known.Grows (Scene.types t) →
      Scene.Proper (part t) ∧ Scene.types (part t) = Scene.types t)
    (finish : ∀ t s, Scene.Proper t → Scene.Proper s →
      (Scene.types t).Grows (Scene.types s) →
        Scene.Proper (put t s) ∧ Scene.types (put t s) = Scene.types s)
    (safe : Safe known body gives) : Safe known (.onPart part put body) gives := by
  intro t proper grows
  obtain ⟨inside, same⟩ := start t proper grows
  have clean := safe (part t) inside (same ▸ grows)
  rw [same] at clean
  obtain ⟨outside, types⟩ := finish t _ proper clean.last clean.grows
  refine ⟨?_, outside, types ▸ clean.grows, types ▸ clean.outcome⟩
  intro moment member
  obtain ⟨inner, listed, rfl⟩ := List.mem_map.mp member
  have within := clean.moment inner listed
  obtain ⟨around, also⟩ := finish t inner.state proper within.state within.grows
  exact ⟨around, also ▸ within.grows, fun error here => also ▸ within.error error here⟩

end Safety

/-! ## Machines and activations -/

section Machines

variable {α : Type} {known : Registry} {gives : Registry → α → Prop}

theorem safe_onMachine {body : Computation Machine α} (safe : Safe known body gives) :
    Safe known (Activation.onMachine body) gives :=
  safe.onPart (fun _ proper _ => ⟨proper.machine, rfl⟩)
    fun _ _ proper after grows => ⟨proper.withMachine grows after, rfl⟩

theorem safe_inFrame {body : Computation Activation Value} {frame : Frame}
    (locals : frame.locals.Every (Value.Proper known)) (safe : Safe known body Value.Proper) :
    Safe known (Machine.inFrame frame body) Value.Proper := by
  refine Safe.onPart (fun machine proper grows => ?_) (fun machine activation _ after _ => ?_) safe
  · exact ⟨⟨proper, locals.mono fun _ held => held.mono grows⟩, rfl⟩
  · exact ⟨after.machine, rfl⟩

theorem safe_machine_update {step : World → Except Error (α × World)}
    (answers : ∀ world : World, world.Proper → known.Grows world.types →
      Answers world.types (fun made => made.2.Proper ∧ world.types.Grows made.2.types ∧
        gives made.2.types made.1) (step world)) :
    Safe known (Machine.update step) gives :=
  safe_update fun machine proper grows =>
    (answers machine.world proper.world grows).map fun _ made =>
      ⟨proper.withWorld made.2.1 made.1, made.2.1, made.2.2⟩

theorem safe_step {step : World → Except Error (Value × World)}
    (answers : ∀ world : World, world.Proper → known.Grows world.types →
      Answers world.types world.Leads (step world)) :
    Safe known (Machine.update step) Value.Proper :=
  safe_machine_update fun world proper grows =>
    (answers world proper grows).imp fun _ leads => ⟨leads.world, leads.grows, leads.value⟩

end Machines

end ScriptCore
