import ScriptCore.Proofs.Clause.Selection
import ScriptCore.Proofs.Run.Surroundings
import ScriptCore.Proofs.Run.Unwinding

/-!
# Where errors go

An error that comes up within nested try regions goes to the innermost region
with a clause that takes it.  On its way it leaves functions and ends handlers,
and its backtrace grows by the functions; it changes nothing else and starts no
handler.
-/

namespace ScriptCore

namespace Run

/-- The layer is the body of a region with a clause that takes errors of this type. -/
def Layer.Takes (registry : Registry) (raised : TypeId) : Layer → Prop
  | .body clauses _ => ∃ clause ∈ clauses, clause.Takes registry raised
  | _ => False

/-- An error of this type goes through the layer. -/
def Layer.LetsThrough (registry : Registry) (raised : TypeId) : Layer → Prop
  | .body clauses _ => ∀ clause ∈ clauses, ¬ clause.Takes registry raised
  | .host => False
  | _ => True

theorem letsThrough_of_not_takes {registry : Registry} {raised : TypeId} {layers : List Layer}
    (alone : .host ∉ layers) (untaken : ∀ layer ∈ layers, ¬ layer.Takes registry raised) :
    ∀ layer ∈ layers, layer.LetsThrough registry raised := by
  intro layer member
  cases layer with
  | body clauses handlers =>
      exact fun clause inside takes => untaken _ member ⟨clause, inside, takes⟩
  | host => exact alone member
  | call | handler => exact trivial

/-- The innermost of the layers for which something holds. -/
theorem exists_innermost {layers : List Layer} {holds : Layer → Prop}
    (some : ∃ layer ∈ layers, holds layer) :
    ∃ outer layer inner, layers = outer ++ layer :: inner ∧ holds layer ∧
      ∀ other ∈ inner, ¬ holds other := by
  induction layers with
  | nil =>
      obtain ⟨_, member, _⟩ := some
      cases member
  | cons layer layers ih =>
      by_cases deeper : ∃ other ∈ layers, holds other
      · obtain ⟨outer, found, inner, rfl, here, none⟩ := ih deeper
        exact ⟨layer :: outer, found, inner, rfl, here, none⟩
      · obtain ⟨found, member, here⟩ := some
        rcases List.mem_cons.mp member with rfl | inside
        · exact ⟨[], found, layers, rfl, here, fun other member held =>
            deeper ⟨other, member, held⟩⟩
        · exact absurd ⟨found, inside, here⟩ deeper

/-! ## Errors on their way out -/

/-- A run ends with this error and leaves calls and handled errors as they were. -/
structure Raises {σ α : Type} (view : σ → Machine) (body : Computation σ α) (start : σ)
    (error : Error) (last : σ) : Prop where
  ended : body.run start = (.raised error, last)
  calls : (view last).calls = (view start).calls
  handling : (view last).handling = (view start).handling

theorem Composed.raises {σ α : Type} {view : σ → Machine} {body : Computation σ α} {start last : σ}
    {error : Error} (composed : Composed view body)
    (ended : body.run start = (.raised error, last)) : Raises view body start error last := by
  have lawful := composed.sound start
  rw [ended] at lawful
  exact ⟨ended, lawful.calls nofun, lawful.handling nofun⟩

/-- The machine with the calls and the handled errors of another one. -/
def settled (machine before : Machine) : Machine :=
  { machine with calls := before.calls, handling := before.handling }

theorem settled_congr {machine before earlier : Machine} (calls : before.calls = earlier.calls)
    (handling : before.handling = earlier.handling) :
    settled machine before = settled machine earlier := by
  rw [settled, settled, calls, handling]

/-- After this part of the trail no handler and no host is given an error. -/
def AloftAfter (part trail : List (Moment Machine)) : Prop :=
  ∃ before after, trail = before ++ part ++ after ∧ ∀ moment ∈ after, moment.event.lands = false

section Aloft

variable {part trail : List (Moment Machine)}

theorem AloftAfter.refl (part : List (Moment Machine)) : AloftAfter part part :=
  ⟨[], [], (List.append_nil part).symm, by simp⟩

theorem AloftAfter.prepend (aloft : AloftAfter part trail) (first : List (Moment Machine)) :
    AloftAfter part (first ++ trail) := by
  obtain ⟨before, after, rfl, passing⟩ := aloft
  exact ⟨first ++ before, after, by simp only [List.append_assoc], passing⟩

theorem AloftAfter.concat (aloft : AloftAfter part trail) {moment : Moment Machine}
    (passing : moment.event.lands = false) : AloftAfter part (trail ++ [moment]) := by
  obtain ⟨before, after, rfl, rest⟩ := aloft
  refine ⟨before, after ++ [moment], by simp only [List.append_assoc], fun other member => ?_⟩
  rcases List.mem_append.mp member with early | last
  · exact rest other early
  · rw [List.mem_singleton.mp last]
    exact passing

end Aloft

/--
The error of a part goes through a run that comes to the part and ends with it.
On its way it starts no handler and changes nothing but calls and handled errors.
-/
structure Passes {τ β σ α : Type} (inside : τ → Machine) (part : Computation τ β) (point last : τ)
    (view : σ → Machine) (whole : Computation σ α) (start : σ) (received : Error) (final : σ) :
    Prop where
  ended : whole.run start = (.raised received, final)
  machine : view final = settled (inside last) (view start)
  trail : AloftAfter (seen inside (part.trail point)) (seen view (whole.trail start))

section Passing

variable {τ β σ α : Type} {inside : τ → Machine} {part : Computation τ β} {point last : τ}
  {view : σ → Machine} {whole : Computation σ α} {start final : σ} {layers : List Layer}
  {error : Error}

theorem Passes.raises (passes : Passes inside part point last view whole start error final) :
    Raises view whole start error final := by
  refine ⟨passes.ended, ?_, ?_⟩
  · rw [passes.machine, settled]
  · rw [passes.machine, settled]

theorem Raises.passes (raises : Raises inside part point error last) :
    Passes inside part point last inside part point error last := by
  refine ⟨raises.ended, ?_, .refl _⟩
  rw [settled, ← raises.calls, ← raises.handling]

theorem Passes.first {γ : Type}
    (passes : Passes inside part point last view whole start error final)
    (next : α → Computation σ γ) :
    Passes inside part point last view (whole >>= next) start error final := by
  have ended := passes.ended
  refine ⟨Computation.run_bind_of_raised ended next, passes.machine, ?_⟩
  rw [Computation.trail_bind_of_ne_value (by rw [ended]; exact nofun)]
  exact passes.trail

theorem Passes.next {γ : Type} {body : Computation σ γ} {next : γ → Computation σ α} {earlier : σ}
    {a : γ} (composed : Composed view body) (gave : body.run earlier = (.value a, start))
    (passes : Passes inside part point last view (next a) start error final) :
    Passes inside part point last view (body >>= next) earlier error final := by
  have lawful := composed.sound earlier
  rw [gave] at lawful
  refine ⟨(Computation.run_bind_of_value gave next).trans passes.ended, ?_, ?_⟩
  · exact passes.machine.trans (settled_congr (lawful.calls nofun) (lawful.handling nofun))
  · rw [Computation.trail_bind_of_value gave, seen_append]
    exact passes.trail.prepend _

theorem Passes.call {name : Name} {body : Computation Machine Value} {machine final : Machine}
    {calls : CallStack} (pushed : machine.calls.push name = .ok calls)
    (passes : Passes inside part point last id body { machine with calls } error final) :
    Passes inside part point last id (Machine.within name body) machine (error.leave name)
      { final with calls := machine.calls } := by
  have ended : body.run { machine with calls } = (.ofExcept (.error error), final) := passes.ended
  obtain ⟨run, trail⟩ := within_of_result pushed ended passes.raises.calls
  refine ⟨run, ?_, ?_⟩
  · have same : final = settled (inside last) { machine with calls } := passes.machine
    rw [same]
    rfl
  · rw [trail, ← List.cons_append, seen_append]
    exact (passes.trail.prepend [⟨.enter name, { machine with calls }⟩]).concat rfl

theorem Passes.body {clauses : List Clause} {body : Computation Activation Value}
    {handlers : Nat → Error → Computation Activation Value} {start final : Activation}
    (passes : Passes inside part point last Activation.machine body start error final)
    (untaken : ∀ clause ∈ clauses, ¬ clause.Takes (inside last).world.types error.type) :
    Passes inside part point last Activation.machine (Activation.guarded clauses body handlers)
      start error final := by
  have none : Clause.select final.machine.world.types error clauses = none := by
    rw [passes.machine]
    exact Clause.select_eq_none_iff.mpr untaken
  obtain ⟨run, trail⟩ := guarded_of_raised clauses handlers passes.ended
  obtain ⟨asked, askedTrail⟩ := dispatch_of_none clauses handlers none
  refine ⟨run.trans asked, passes.machine, ?_⟩
  rw [trail, askedTrail, seen_append]
  exact passes.trail.concat rfl

theorem Passes.handler {clauses : List Clause} {body : Computation Activation Value}
    {handlers : Nat → Error → Computation Activation Value} {start middle final : Activation}
    {first : Error} {index : Nat} (composed : Composed Activation.machine body)
    (raised : body.run start = (.raised first, middle))
    (taken : Clause.select middle.machine.world.types first clauses = some index)
    (passes : Passes inside part point last Activation.machine (handlers index first)
      (middle.handling first) error final) :
    Passes inside part point last Activation.machine (Activation.guarded clauses body handlers)
      start error final.handled := by
  have before := composed.raises raised
  have ended : (handlers index first).run (middle.handling first) =
      (.ofExcept (.error error), final) := passes.ended
  obtain ⟨run, trail⟩ := guarded_of_raised clauses handlers raised
  obtain ⟨asked, askedTrail⟩ := dispatch_of_some clauses handlers taken
  obtain ⟨handled, handledTrail⟩ := handle_of_result ended
  refine ⟨run.trans (asked.trans handled), ?_, ?_⟩
  · rw [← settled_congr before.calls before.handling, Activation.handled, passes.machine]
    rfl
  · rw [trail, askedTrail, handledTrail, seen_append]
    have closing : AloftAfter (seen inside (part.trail point)) (seen Activation.machine
        ((handlers index first).trail (middle.handling first) ++ [⟨.finish, final.handled⟩])) := by
      rw [seen_append]
      exact passes.trail.concat rfl
    have opening := closing.prepend
      [⟨.select first, middle.machine⟩, ⟨.handle index first, (middle.handling first).machine⟩]
    exact opening.prepend _

theorem Passes.onPart {ρ : Type} {inner : ρ → Machine} {select : σ → ρ} {put : σ → ρ → σ}
    {body : Computation ρ α} {final : ρ} (before : ∀ s, inner (select s) = view s)
    (after : ∀ s t, view (put s t) = inner t)
    (passes : Passes inside part point last inner body (select start) error final) :
    Passes inside part point last view (.onPart select put body) start error (put start final) := by
  refine ⟨?_, ?_, ?_⟩
  · simp only [Computation.onPart, passes.ended]
  · rw [after, passes.machine, before]
  · rw [seen_onPart after]
    exact passes.trail

end Passing

namespace Reaches

variable {τ β σ α : Type} {inside : τ → Machine} {part : Computation τ β} {point last : τ}
  {view : σ → Machine} {whole : Computation σ α} {start : σ} {layers : List Layer} {error : Error}

/-- An error that no layer stops goes through all of them, innermost first. -/
theorem exists_passes (reaches : Reaches inside part point view whole start layers)
    (raises : Raises inside part point error last)
    (through : ∀ layer ∈ layers, layer.LetsThrough (inside last).world.types error.type) :
    ∃ final, Passes inside part point last view whole start
      (error.leaveAll (Layer.called layers)) final := by
  induction reaches with
  | here =>
      rw [Layer.called, Error.leaveAll_nil]
      exact ⟨last, raises.passes⟩
  | first _ ih =>
      obtain ⟨final, passes⟩ := ih through
      exact ⟨final, passes.first _⟩
  | next composed gave _ ih =>
      obtain ⟨final, passes⟩ := ih through
      exact ⟨final, passes.next composed gave⟩
  | host => exact (List.forall_mem_cons.mp through).1.elim
  | call pushed _ ih =>
      obtain ⟨final, passes⟩ := ih (List.forall_mem_cons.mp through).2
      rw [Layer.called, ← Error.leaveAll_leaveAll]
      exact ⟨_, passes.call pushed⟩
  | body _ ih =>
      -- The world has not changed since the error came up, so its clauses decide by the same types.
      obtain ⟨untaken, inner⟩ := List.forall_mem_cons.mp through
      obtain ⟨final, passes⟩ := ih inner
      exact ⟨final, passes.body untaken⟩
  | handler composed raised taken _ ih =>
      obtain ⟨final, passes⟩ := ih (List.forall_mem_cons.mp through).2
      exact ⟨_, passes.handler composed raised taken⟩
  | onPart before after _ ih =>
      obtain ⟨final, passes⟩ := ih through
      exact ⟨_, passes.onPart before after⟩

/-- A region around the part is itself reached, within the layers around it. -/
theorem exists_region {outer inner : List Layer} {clauses : List Clause}
    {handlers : Nat → Error → Computation Activation Value}
    (reaches : Reaches inside part point view whole start layers)
    (split : layers = outer ++ .body clauses handlers :: inner) :
    ∃ body middle,
      Reaches Activation.machine (Activation.guarded clauses body handlers) middle view whole start
        outer ∧
      Reaches inside part point Activation.machine body middle inner := by
  induction reaches generalizing outer with
  | here => cases outer <;> cases split
  | first _ ih =>
      obtain ⟨body, middle, outside, within⟩ := ih split
      exact ⟨body, middle, .first outside, within⟩
  | next composed gave _ ih =>
      obtain ⟨body, middle, outside, within⟩ := ih split
      exact ⟨body, middle, .next composed gave outside, within⟩
  | host _ ih =>
      rcases List.cons_eq_append_iff.mp split with ⟨_, same⟩ | ⟨rest, rfl, deeper⟩
      · cases same
      · obtain ⟨body, middle, outside, within⟩ := ih deeper
        exact ⟨body, middle, .host outside, within⟩
  | call pushed _ ih =>
      rcases List.cons_eq_append_iff.mp split with ⟨_, same⟩ | ⟨rest, rfl, deeper⟩
      · cases same
      · obtain ⟨body, middle, outside, within⟩ := ih deeper
        exact ⟨body, middle, .call pushed outside, within⟩
  | @body _ body _ start _ within ih =>
      rcases List.cons_eq_append_iff.mp split with ⟨rfl, same⟩ | ⟨rest, rfl, deeper⟩
      · cases same
        exact ⟨body, start, .here, within⟩
      · obtain ⟨body, middle, outside, within⟩ := ih deeper
        exact ⟨body, middle, .body outside, within⟩
  | handler composed raised taken _ ih =>
      rcases List.cons_eq_append_iff.mp split with ⟨_, same⟩ | ⟨rest, rfl, deeper⟩
      · cases same
      · obtain ⟨body, middle, outside, within⟩ := ih deeper
        exact ⟨body, middle, .handler composed raised taken outside, within⟩
  | onPart before after _ ih =>
      obtain ⟨body, middle, outside, within⟩ := ih split
      exact ⟨body, middle, .onPart before after outside, within⟩

end Reaches

/-! ## The region that takes an error -/

/-- The handlers of a region begin with the error and the region ends as they do. -/
theorem guarded_of_taken {clauses : List Clause} {body : Computation Activation Value}
    {handlers : Nat → Error → Computation Activation Value} {start middle last : Activation}
    {error : Error} {index : Nat} {result : Except Error Value}
    (raised : body.run start = (.raised error, middle))
    (taken : Clause.select middle.machine.world.types error clauses = some index)
    (ended : (handlers index error).run (middle.handling error) = (.ofExcept result, last)) :
    (Activation.guarded clauses body handlers).run start = (.ofExcept result, last.handled) :=
  (guarded_of_raised clauses handlers raised).1.trans <|
    (dispatch_of_some clauses handlers taken).1.trans (handle_of_result ended).1

theorem trail_of_taken {clauses : List Clause} {body : Computation Activation Value}
    (handlers : Nat → Error → Computation Activation Value) {start middle : Activation}
    {error : Error} {index : Nat} (raised : body.run start = (.raised error, middle))
    (taken : Clause.select middle.machine.world.types error clauses = some index) :
    body.trail start ++ [⟨.select error, middle⟩, ⟨.handle index error, middle.handling error⟩] <+:
      (Activation.guarded clauses body handlers).trail start := by
  have begins : [⟨.handle index error, middle.handling error⟩] <+:
      (Activation.handle (.handling index) index error (handlers index error)).trail middle :=
    Computation.trail_prefix_bind (Activation.enterHandler index error) _ middle
  rw [(guarded_of_raised clauses handlers raised).2, (dispatch_of_some clauses handlers taken).2]
  exact (List.prefix_append_right_inj _).mpr (List.cons_prefix_cons.mpr ⟨rfl, begins⟩)

/--
The error of a part lands in a region around it.  The region is reached within
`outer`, and the part is reached within `inner` by the body of the region.
-/
structure Lands {τ β σ α : Type} (inside : τ → Machine) (part : Computation τ β) (point last : τ)
    (error : Error) (view : σ → Machine) (whole : Computation σ α) (start : σ)
    (outer : List Layer) (clauses : List Clause)
    (handlers : Nat → Error → Computation Activation Value) (inner : List Layer) (index : Nat)
    (received : Error) (body : Computation Activation Value) (middle arrival : Activation) :
    Prop where
  region : Reaches Activation.machine (Activation.guarded clauses body handlers) middle view whole
    start outer
  first : Clause.FirstAt (inside last).world.types error.type clauses index
  /-- The error has left the functions called within `inner`, and is otherwise what it was. -/
  unwound : Unwound error (inside point) (Layer.called inner) received arrival.machine
  /-- The body of the region ends with it. -/
  passes : Passes inside part point last Activation.machine body middle received arrival
  /-- After it came up it is given to this handler, and to no other one before. -/
  trail : ∃ before between after, seen view (whole.trail start) =
    before ++ seen inside (part.trail point) ++ between ++
      ⟨.select received, arrival.machine⟩ ::
        ⟨.handle index received, (arrival.handling received).machine⟩ :: after ∧
    ∀ moment ∈ between, moment.event.lands = false
  /-- A value of the handler is the value of the region. -/
  value : ∀ value final,
    (handlers index received).run (arrival.handling received) = (.value value, final) →
      (Activation.guarded clauses body handlers).run middle = (.value value, final.handled)
  /-- An error of the handler is the error of the region, for the regions around it. -/
  raises : ∀ again final,
    Raises Activation.machine (handlers index received) (arrival.handling received) again final →
      Raises Activation.machine (Activation.guarded clauses body handlers) middle again
        final.handled

section Landing

variable {τ β σ α : Type} {inside : τ → Machine} {part : Computation τ β} {point last : τ}
  {view : σ → Machine} {whole : Computation σ α} {start : σ} {outer inner : List Layer}
  {error received : Error} {clauses : List Clause} {index : Nat}
  {handlers : Nat → Error → Computation Activation Value} {body : Computation Activation Value}
  {middle arrival : Activation}

theorem trail_of_lands
    (region : Reaches Activation.machine (Activation.guarded clauses body handlers) middle view
      whole start outer)
    (passes : Passes inside part point last Activation.machine body middle received arrival)
    (taken : Clause.select arrival.machine.world.types received clauses = some index) :
    ∃ before between after, seen view (whole.trail start) =
      before ++ seen inside (part.trail point) ++ between ++
        ⟨.select received, arrival.machine⟩ ::
          ⟨.handle index received, (arrival.handling received).machine⟩ :: after ∧
      ∀ moment ∈ between, moment.event.lands = false := by
  obtain ⟨first, rest, whole⟩ := region.trail_infix
  obtain ⟨more, guarded⟩ := trail_of_taken handlers passes.ended taken
  obtain ⟨before, between, trail, aloft⟩ := passes.trail
  refine ⟨first ++ before, between, seen Activation.machine more ++ rest, ?_, aloft⟩
  rw [← whole, ← guarded, seen_append, seen_append, trail]
  simp [seen, Moment.map]

theorem value_of_taken {value : Value} {final : Activation}
    (passes : Passes inside part point last Activation.machine body middle received arrival)
    (taken : Clause.select arrival.machine.world.types received clauses = some index)
    (gave : (handlers index received).run (arrival.handling received) = (.value value, final)) :
    (Activation.guarded clauses body handlers).run middle = (.value value, final.handled) := by
  have ended : (handlers index received).run (arrival.handling received) =
      (.ofExcept (.ok value), final) := gave
  exact guarded_of_taken passes.ended taken ended

theorem raises_of_taken {again : Error} {final : Activation}
    (passes : Passes inside part point last Activation.machine body middle received arrival)
    (taken : Clause.select arrival.machine.world.types received clauses = some index)
    (raised : Raises Activation.machine (handlers index received) (arrival.handling received) again
      final) :
    Raises Activation.machine (Activation.guarded clauses body handlers) middle again
      final.handled := by
  have ended : (handlers index received).run (arrival.handling received) =
      (.ofExcept (.error again), final) := raised.ended
  have outside : final.machine.handling.tail = arrival.machine.handling := by
    rw [raised.handling]
    rfl
  exact ⟨guarded_of_taken passes.ended taken ended, raised.calls.trans passes.raises.calls,
    outside.trans passes.raises.handling⟩

theorem Reaches.exists_lands
    (reaches : Reaches inside part point view whole start
      (outer ++ .body clauses handlers :: inner))
    (raises : Raises inside part point error last)
    (through : ∀ layer ∈ inner, layer.LetsThrough (inside last).world.types error.type)
    (taken : ∃ clause ∈ clauses, clause.Takes (inside last).world.types error.type) :
    ∃ index received body middle arrival, Lands inside part point last error view whole start outer
      clauses handlers inner index received body middle arrival := by
  obtain ⟨body, middle, region, within⟩ := reaches.exists_region rfl
  obtain ⟨arrival, passes⟩ := within.exists_passes raises through
  obtain ⟨index, selected⟩ : ∃ index, Clause.select (inside last).world.types
      (error.leaveAll (Layer.called inner)) clauses = some index := Clause.exists_select taken
  have here : Clause.select arrival.machine.world.types (error.leaveAll (Layer.called inner))
      clauses = some index := by
    rw [passes.machine]
    exact selected
  refine ⟨index, error.leaveAll (Layer.called inner), body, middle, arrival, ?_⟩
  exact
    { region
      first := Clause.firstAt_of_select selected
      unwound := ⟨passes.raises.calls ▸ within.frames_eq, rfl⟩
      passes
      trail := trail_of_lands region passes here
      value := fun value final => value_of_taken passes here
      raises := fun again final => raises_of_taken passes here }

end Landing

/-- A region whose handlers raise the error again is as good as its body alone. -/
theorem guarded_of_raised_again {clauses : List Clause} {body : Computation Activation Value}
    {handlers : Nat → Error → Computation Activation Value} {start : Activation}
    (again : ∀ index error middle, body.run start = (.raised error, middle) →
      (handlers index error).run (middle.handling error) =
        (.raised error, middle.handling error)) :
    (Activation.guarded clauses body handlers).run start = body.run start := by
  cases ended : body.run start with
  | mk outcome middle =>
      cases outcome with
      | value value => exact (guarded_of_value clauses handlers ended).1
      | raised error =>
          cases taken : Clause.select middle.machine.world.types error clauses with
          | none =>
              exact (guarded_of_raised clauses handlers ended).1.trans
                (dispatch_of_none clauses handlers taken).1
          | some index =>
              have raised : (handlers index error).run (middle.handling error) =
                  (.ofExcept (.error error), middle.handling error) :=
                again index error middle ended
              exact guarded_of_taken ended taken raised
      | broken defect =>
          change (Computation.bind body.result _).run start = _
          simp only [Computation.bind, Computation.result, ended]
      | outOfFuel => exact (guarded_of_outOfFuel clauses handlers ended).1

/--
An error that comes up within layers lands in the innermost region with a clause
that takes it, at the first such clause.  It has left the functions on the way
and is otherwise what it was, and no other handler was given it.  The region
ends as its handler does, by a value or by an error that goes on to the regions
around it.  An error that no region takes goes through all of them.  A region
whose handlers raise the error again might as well be absent.
-/
theorem error_lands_in_innermost_region :
    (∀ {τ β σ α : Type} {inside : τ → Machine} {part : Computation τ β} {point last : τ}
      {view : σ → Machine} {whole : Computation σ α} {start : σ} {layers : List Layer}
      {error : Error},
      Reaches inside part point view whole start layers →
      Raises inside part point error last → .host ∉ layers →
        ((∃ layer ∈ layers, layer.Takes (inside last).world.types error.type) →
          ∃ outer clauses handlers inner index received body middle arrival,
            layers = outer ++ .body clauses handlers :: inner ∧
            (∀ layer ∈ inner, ¬ layer.Takes (inside last).world.types error.type) ∧
            Lands inside part point last error view whole start outer clauses handlers inner index
              received body middle arrival) ∧
        ((∀ layer ∈ layers, ¬ layer.Takes (inside last).world.types error.type) →
          ∃ received final,
            Unwound error (inside point) (Layer.called layers) received (view start) ∧
            Passes inside part point last view whole start received final)) ∧
    (∀ clauses body handlers start,
      (∀ index error middle, body.run start = (.raised error, middle) →
        (handlers index error).run (middle.handling error) =
          (.raised error, middle.handling error)) →
        (Activation.guarded clauses body handlers).run start = body.run start) := by
  refine ⟨?_, ?_⟩
  · intro τ β σ α inside part point last view whole start layers error reaches raises alone
    refine ⟨fun someTakes => ?_, fun untaken => ?_⟩
    · obtain ⟨outer, layer, inner, rfl, takes, untaken⟩ := exists_innermost someTakes
      cases layer with
      | body clauses handlers =>
          have aloneInside : .host ∉ inner := fun member =>
            alone (List.mem_append_right outer (List.mem_cons_of_mem _ member))
          obtain ⟨index, received, body, middle, arrival, lands⟩ :=
            reaches.exists_lands raises (letsThrough_of_not_takes aloneInside untaken) takes
          exact ⟨outer, clauses, handlers, inner, index, received, body, middle, arrival, rfl,
            untaken, lands⟩
      | call | handler | host => exact absurd takes not_false
    · obtain ⟨final, passes⟩ :=
        reaches.exists_passes raises (letsThrough_of_not_takes alone untaken)
      exact ⟨_, final, ⟨reaches.frames_eq, rfl⟩, passes⟩
  · intro clauses body handlers start
    exact guarded_of_raised_again

/-- What the function `f` does when it fails. -/
def raising : Computation Machine Value := .raise (.ofCause .noActiveException)

/-- Clauses that do not take the error of `f`, and clauses of which the second one does. -/
def narrow : List Clause := [.types [.keyError], .unresolved "Missing"]

def wide : List Clause := [.unresolved "Missing", .types [.lookupError, .exception], .bare]

/-- Handlers that give their number. -/
def numbering (index : Nat) (_ : Error) : Computation Activation Value := .pure (.ofNat index)

/-- A function that protects a call of `f` by the narrow clauses. -/
def asking : Computation Machine Value :=
  Machine.within "g" <| Machine.inFrame { function := "g" } <|
    Activation.guarded narrow (Activation.onMachine failing) numbering

/-- A region that protects a call of this function by the wide clauses. -/
def answering : Computation Activation Value :=
  Activation.guarded wide (Activation.onMachine asking) numbering

/-- The machine while `f` is running in `g`. -/
def bottom : Machine :=
  .fresh
    { frames := ["f", "g"]
      limit := none
      within := fun most bound => absurd bound (Option.not_mem_none most) }

theorem asking_reaches :
    Reaches id raising bottom id asking outside [.call "g", .body narrow numbering, .call "f"] :=
  .call rfl <| .onPart (fun _ => rfl) (fun _ _ => rfl) <| .body <|
    .onPart (fun _ => rfl) (fun _ _ => rfl) <| .call rfl .here

theorem answering_reaches :
    Reaches id raising bottom Activation.machine answering (Session.start none)
      [.body wide numbering, .call "g", .body narrow numbering, .call "f"] :=
  .body <| .onPart (fun _ => rfl) (fun _ _ => rfl) asking_reaches

theorem raising_raises : Raises id raising bottom (.ofCause .noActiveException) bottom :=
  ⟨rfl, rfl, rfl⟩

theorem not_takes_narrow :
    ∀ clause ∈ narrow, ¬ clause.Takes bottom.world.types
      (Error.ofCause .noActiveException).type := by
  simp only [← Clause.accepts_iff]
  decide

theorem error_lands_in_innermost_region_wide :
    (∃ outer clauses handlers inner index received body middle arrival,
      Lands id raising bottom bottom (.ofCause .noActiveException) Activation.machine answering
        (Session.start none) outer clauses handlers inner index received body middle arrival) ∧
    (∃ received final,
      Unwound (.ofCause .noActiveException) bottom ["f", "g"] received outside ∧
      Passes id raising bottom bottom id asking outside received final) ∧
    (Activation.guarded wide (Activation.onMachine failing) fun _ _ =>
        .inspect fun activation => .error activation.machine.reraise).run (Session.start none) =
      (Activation.onMachine failing).run (Session.start none) := by
  obtain ⟨dispatched, again⟩ := error_lands_in_innermost_region
  refine ⟨?_, ?_, ?_⟩
  · obtain ⟨outer, clauses, handlers, inner, index, received, body, middle, arrival, _, _, lands⟩ :=
      (dispatched answering_reaches raising_raises (by simp)).1
        ⟨_, List.mem_cons_self, .bare, by simp [wide], .bare⟩
    exact ⟨outer, clauses, handlers, inner, index, received, body, middle, arrival, lands⟩
  · refine (dispatched asking_reaches raising_raises (by simp)).2 fun layer member => ?_
    simp only [List.mem_cons, List.not_mem_nil, or_false] at member
    rcases member with rfl | rfl | rfl
    · exact not_false
    · rintro ⟨clause, member, takes⟩
      exact not_takes_narrow clause member takes
    · exact not_false
  · exact again wide _ _ _ fun _ _ _ _ => rfl

end Run

end ScriptCore
