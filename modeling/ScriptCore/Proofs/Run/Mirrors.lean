import Mathlib.Data.List.Forall2
import ScriptCore.Computation

/-!
# Two runs side by side

A computation that starts in two related states may do the same from both.  Where its runs
differ, it is because a call is refused in the first one: up to there the same has happened
in both, and the second one makes the same call.
-/

namespace ScriptCore

namespace Event

/-- The function that is called here, whether there is room for it or not. -/
def called? : Event → Option Name
  | enter name | refuse name => some name
  | _ => none

/-- Whether there is no room for a function here. -/
def refuses : Event → Bool
  | refuse _ => true
  | _ => false

end Event

namespace Run

variable {σ τ α β : Type}

/-- The same happens, which is no refused call, and the states after it are related. -/
structure Matches (related : σ → σ → Prop) (left right : Moment σ) : Prop where
  event : right.event = left.event
  accepted : left.event.refuses = false
  state : related left.state right.state

/-- Two trails that match up to a call that the first one refuses. -/
inductive Parts (related : σ → σ → Prop) : List (Moment σ) → List (Moment σ) → Prop where
  | here {name : Name} {event : Event} {small large : σ} {rest other : List (Moment σ)}
      (called : event.called? = some name) :
      Parts related (⟨.refuse name, small⟩ :: rest) (⟨event, large⟩ :: other)
  | later {left right : Moment σ} {rest other : List (Moment σ)}
      (same : Matches related left right) (parts : Parts related rest other) :
      Parts related (left :: rest) (right :: other)

/-- Two runs in which the same happens throughout and that end alike. -/
structure Agrees (related : σ → σ → Prop) (trail other : List (Moment σ))
    (ended last : Outcome α × σ) : Prop where
  trail : List.Forall₂ (Matches related) trail other
  outcome : last.1 = ended.1
  state : related ended.2 last.2

/-- Two runs that agree or part. -/
def Abreast (related : σ → σ → Prop) (trail other : List (Moment σ))
    (ended last : Outcome α × σ) : Prop :=
  Agrees related trail other ended last ∨ Parts related trail other

/-- From related states a computation runs abreast. -/
def Mirrors (related : σ → σ → Prop) (body : Computation σ α) : Prop :=
  ∀ small large, related small large →
    Abreast related (body.trail small) (body.trail large) (body.run small) (body.run large)

section Trails

variable {related : σ → σ → Prop} {left right trail other : List (Moment σ)}

theorem Parts.extend {longer further : List (Moment σ)} (parts : Parts related trail other)
    (first : trail <+: longer) (second : other <+: further) : Parts related longer further := by
  obtain ⟨after, rfl⟩ := first
  obtain ⟨beyond, rfl⟩ := second
  induction parts with
  | here called => exact .here called
  | later same _ ih => exact .later same ih

theorem Parts.prepend (before : List.Forall₂ (Matches related) left right)
    (parts : Parts related trail other) : Parts related (left ++ trail) (right ++ other) := by
  induction before with
  | nil => exact parts
  | cons same _ ih => exact .later same ih

theorem Abreast.prepend {ended last : Outcome α × σ}
    (before : List.Forall₂ (Matches related) left right)
    (abreast : Abreast related trail other ended last) :
    Abreast related (left ++ trail) (right ++ other) ended last := by
  rcases abreast with agrees | parts
  · exact .inl ⟨List.rel_append before agrees.trail, agrees.outcome, agrees.state⟩
  · exact .inr (parts.prepend before)

theorem Matches.map {further : τ → τ → Prop} {view seen : σ → τ} {first second : Moment σ}
    (same : Matches related first second)
    (kept : ∀ small large, related small large → further (view small) (seen large)) :
    Matches further (first.map view) (second.map seen) :=
  ⟨same.event, same.accepted, kept _ _ same.state⟩

theorem Parts.map {further : τ → τ → Prop} {view seen : σ → τ}
    (parts : Parts related trail other)
    (kept : ∀ small large, related small large → further (view small) (seen large)) :
    Parts further (trail.map (·.map view)) (other.map (·.map seen)) := by
  induction parts with
  | here called => exact .here called
  | later same _ ih => exact .later (same.map kept) ih

theorem Abreast.conclude {small large : σ} (alike : related small large) (outcome : Outcome α) :
    Abreast related [] [] (outcome, small) (outcome, large) :=
  .inl ⟨.nil, rfl, alike⟩

theorem Abreast.single {small large : σ} {event : Event} (accepted : event.refuses = false)
    (alike : related small large) (outcome : Outcome α) :
    Abreast related [⟨event, small⟩] [⟨event, large⟩] (outcome, small) (outcome, large) :=
  .inl ⟨.cons ⟨rfl, accepted, alike⟩ .nil, rfl, alike⟩

end Trails

/-! ## Steps -/

section Steps

variable {related : σ → σ → Prop}

theorem mirrors_pure (a : α) : Mirrors related (.pure a) :=
  fun _ _ alike => .conclude alike _

theorem mirrors_conclude (result : Except Error α) : Mirrors related (.conclude result) :=
  fun _ _ alike => .conclude alike _

theorem mirrors_exhausted : Mirrors related (.exhausted : Computation σ α) :=
  fun _ _ alike => .conclude alike _

theorem mirrors_require (asserted : Except Defect α) : Mirrors related (.require asserted) := by
  intro small large alike
  simp only [Computation.require]
  cases asserted with
  | ok a => exact .conclude alike _
  | error defect => exact .conclude alike _

theorem mirrors_inspect {look : σ → Except Error α}
    (same : ∀ small large, related small large → look large = look small) :
    Mirrors related (.inspect look) := by
  intro small large alike
  simp only [Computation.inspect, same small large alike]
  cases look small with
  | ok a => exact .conclude alike _
  | error error => exact .single rfl alike _

theorem mirrors_raise (error : Error) :
    Mirrors related (.raise error : Computation σ α) :=
  mirrors_inspect fun _ _ _ => rfl

/-- A change of the state that depends on no more than related states agree on. -/
theorem mirrors_update {act : σ → Except Error β} {finish : σ → β → α × σ}
    (same : ∀ small large, related small large → act large = act small)
    (kept : ∀ small large b, related small large → act small = .ok b →
      (finish large b).1 = (finish small b).1 ∧ related (finish small b).2 (finish large b).2) :
    Mirrors related (.update fun s => (act s).map (finish s)) := by
  intro small large alike
  simp only [Computation.update, same small large alike]
  cases acted : act small with
  | ok b =>
      obtain ⟨value, after⟩ := kept small large b alike acted
      simp only [Except.map, value]
      exact .single rfl after _
  | error error => exact .single rfl alike _

theorem mirrors_mark {event : Event} {change : σ → σ} (accepted : event.refuses = false)
    (kept : ∀ small large, related small large → related (change small) (change large)) :
    Mirrors related (.mark event change) :=
  fun _ _ alike => .single accepted (kept _ _ alike) _

end Steps

/-! ## Sequences -/

section Sequences

variable {related : σ → σ → Prop} {body first : Computation σ α} {next : α → Computation σ β}

/-- After a part of two runs they go on in related states with the same value, or not at all. -/
theorem Abreast.bind {small large : σ}
    (before : Abreast related (first.trail small) (first.trail large) (first.run small)
      (first.run large))
    (after : ∀ {a middle beyond}, first.run small = (.value a, middle) → related middle beyond →
      Abreast related ((next a).trail middle) ((next a).trail beyond) ((next a).run middle)
        ((next a).run beyond)) :
    Abreast related ((first >>= next).trail small) ((first >>= next).trail large)
      ((first >>= next).run small) ((first >>= next).run large) := by
  rcases before with ⟨trail, outcome, state⟩ | parts
  · change Abreast related ((Computation.bind first next).trail small)
      ((Computation.bind first next).trail large) ((Computation.bind first next).run small)
      ((Computation.bind first next).run large)
    simp only [Computation.bind]
    cases ended : first.run small with
    | mk result middle =>
        cases last : first.run large with
        | mk other beyond =>
            rw [ended, last] at outcome state
            cases outcome
            cases result with
            | value a => exact (after ended state).prepend trail
            | raised error => exact .inl ⟨trail, rfl, state⟩
            | broken defect => exact .inl ⟨trail, rfl, state⟩
            | outOfFuel => exact .inl ⟨trail, rfl, state⟩
  · exact .inr (parts.extend (Computation.trail_prefix_bind first next small)
      (Computation.trail_prefix_bind first next large))

theorem mirrors_bind (left : Mirrors related first) (right : ∀ a, Mirrors related (next a)) :
    Mirrors related (first >>= next) :=
  fun small large alike => (left small large alike).bind fun {a middle beyond} _ further =>
    right a middle beyond further

/-- What comes after a look has to do only with what can be seen in such states. -/
theorem mirrors_inspect_bind {look : σ → Except Error α}
    (same : ∀ small large, related small large → look large = look small)
    (after : ∀ small large a, related small large → look small = .ok a →
      Mirrors related (next a)) :
    Mirrors related (.inspect look >>= next) := by
  intro small large alike
  refine (mirrors_inspect same small large alike).bind fun {a middle beyond} gave further => ?_
  have found : look small = .ok a := by
    simp only [Computation.inspect] at gave
    cases seen : look small with
    | ok b =>
        rw [seen] at gave
        cases gave
        rfl
    | error error =>
        rw [seen] at gave
        cases gave
  exact after small large a alike found middle beyond further

theorem mirrors_get_bind {next : σ → Computation σ β}
    (same : ∀ small large, related small large → next large = next small)
    (after : ∀ s, Mirrors related (next s)) : Mirrors related (Computation.get >>= next) := by
  intro small large alike
  change Abreast related ([] ++ (next small).trail small) ([] ++ (next large).trail large)
    ((next small).run small) ((next large).run large)
  rw [same small large alike]
  exact (after small small large alike).prepend .nil

theorem mirrors_result (inner : Mirrors related body) : Mirrors related body.result := by
  intro small large alike
  rcases inner small large alike with agrees | parts
  · obtain ⟨trail, outcome, state⟩ := agrees
    simp only [Computation.result]
    cases ended : body.run small with
    | mk result middle =>
        cases last : body.run large with
        | mk other beyond =>
            rw [ended, last] at outcome state
            cases outcome
            cases result with
            | value a => exact .inl ⟨trail, rfl, state⟩
            | raised error => exact .inl ⟨trail, rfl, state⟩
            | broken defect => exact .inl ⟨trail, rfl, state⟩
            | outOfFuel => exact .inl ⟨trail, rfl, state⟩
  · exact .inr parts

theorem mirrors_attempt (inner : Mirrors related body) : Mirrors related body.attempt := by
  refine mirrors_bind (mirrors_result inner) fun result => ?_
  cases result with
  | ok a => exact mirrors_pure _
  | error error => exact mirrors_bind (mirrors_mark rfl fun _ _ => id) fun _ => mirrors_pure _

theorem mirrors_repeated (count : Nat) (inner : Mirrors related body) :
    Mirrors related (Computation.repeated count body) := by
  induction count with
  | zero => exact mirrors_pure ()
  | succ count ih => exact mirrors_bind inner fun _ => ih

theorem mirrors_onPart {inside : τ → τ → Prop} {part : σ → τ} {put : σ → τ → σ}
    {inner : Computation τ α}
    (begins : ∀ small large, related small large → inside (part small) (part large))
    (ends : ∀ small large left right, related small large → inside left right →
      related (put small left) (put large right))
    (mirrors : Mirrors inside inner) : Mirrors related (.onPart part put inner) := by
  intro small large alike
  rcases mirrors _ _ (begins small large alike) with ⟨trail, outcome, state⟩ | parts
  · refine .inl ⟨?_, outcome, ends _ _ _ _ alike state⟩
    exact List.forall₂_map_left_iff.mpr (List.forall₂_map_right_iff.mpr
      (trail.imp fun _ _ same => same.map fun left right => ends small large left right alike))
  · exact .inr (parts.map fun left right => ends small large left right alike)

end Sequences

end Run

end ScriptCore
