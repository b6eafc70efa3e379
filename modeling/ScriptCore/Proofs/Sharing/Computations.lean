import ScriptCore.Proofs.Sharing.Builtins

/-!
# Blind computations

A computation is blind to what is concealed if from every closed state it runs under the
veil as it runs without it: the same events happen, each state on the way is the veiled
one, and it ends alike.  All states on the way are closed, and a value or error that
comes out is in view.
-/

namespace ScriptCore

/-- A state with a heap, and what it means that the state is closed and that it is veiled. -/
class Stage (σ : Type) where
  heap : σ → Heap
  Closed : (Identity → Bool) → σ → Prop
  veil : (Identity → Bool) → σ → σ

/-- The machine is closed, and the locals of the frame are in view. -/
structure Activation.Closed (concealed : Identity → Bool) (activation : Activation) : Prop where
  machine : activation.machine.Closed concealed
  locals : activation.frame.locals.Every
    (Value.InView concealed activation.machine.world.heap)

/-- The activation with what its heap records about concealed identities taken away. -/
def Activation.veil (concealed : Identity → Bool) (activation : Activation) : Activation :=
  { activation with machine := activation.machine.veil concealed }

theorem Activation.Closed.withMachine {concealed : Identity → Bool} {activation : Activation}
    {machine : Machine} (closed : activation.Closed concealed)
    (keeps : activation.machine.world.heap.Keeps machine.world.heap)
    (held : machine.Closed concealed) : { activation with machine : Activation }.Closed concealed :=
  ⟨held, closed.locals.mono fun _ seen => seen.mono keeps⟩

instance : Stage Machine := ⟨fun machine => machine.world.heap, Machine.Closed, Machine.veil⟩

instance : Stage Activation :=
  ⟨fun activation => activation.machine.world.heap, Activation.Closed, Activation.veil⟩

/-- At this moment of a run from one heap to another the state is closed. -/
structure Moment.Shown {σ : Type} [Stage σ] (concealed : Identity → Bool) (start last : Heap)
    (moment : Moment σ) : Prop where
  closed : Stage.Closed concealed moment.state
  since : start.Keeps (Stage.heap moment.state)
  ends : (Stage.heap moment.state).Keeps last

/-- The heap only goes on from moment to moment. -/
def Moment.Ordered {σ : Type} [Stage σ] (trail : List (Moment σ)) : Prop :=
  trail.Pairwise fun one other => (Stage.heap one.state).Keeps (Stage.heap other.state)

/-- A value that comes out has the property, an error that comes out is in view. -/
def Outcome.Shows {α : Type} (concealed : Identity → Bool) (heap : Heap)
    (gives : Heap → α → Prop) : Outcome α → Prop
  | .value a => gives heap a
  | .raised error => error.InView concealed heap
  | .broken _ | .outOfFuel => True

/-- A result is an outcome. -/
abbrev Shows {α : Type} (concealed : Identity → Bool) (heap : Heap) (gives : Heap → α → Prop)
    (result : Except Error α) : Prop :=
  (Outcome.ofExcept result).Shows concealed heap gives

namespace Computation

/-- From this state the computation is blind. -/
structure BlindFrom {σ α : Type} [Stage σ] (body : Computation σ α) (concealed : Identity → Bool)
    (s : σ) (gives : Heap → α → Prop) : Prop where
  run : body.run (Stage.veil concealed s) = Prod.map id (Stage.veil concealed) (body.run s)
  trail : body.trail (Stage.veil concealed s) =
    (body.trail s).map (Moment.map (Stage.veil concealed))
  moment : ∀ moment ∈ body.trail s,
    moment.Shown concealed (Stage.heap s) (Stage.heap (body.run s).2)
  ordered : Moment.Ordered (body.trail s)
  last : Stage.Closed concealed (body.run s).2
  keeps : (Stage.heap s).Keeps (Stage.heap (body.run s).2)
  outcome : (body.run s).1.Shows concealed (Stage.heap (body.run s).2) gives

/-- From every closed state in which the known identities still are, the computation is blind. -/
def Blind {σ α : Type} [Stage σ] (body : Computation σ α) (concealed : Identity → Bool)
    (known : Heap) (gives : Heap → α → Prop) : Prop :=
  ∀ s : σ, Stage.Closed concealed s → known.Keeps (Stage.heap s) →
    body.BlindFrom concealed s gives

end Computation

section Blindness

variable {σ τ α β : Type} [Stage σ] [Stage τ] {concealed : Identity → Bool} {known later : Heap}
  {gives : Heap → α → Prop} {middle : Heap → β → Prop}

theorem Shows.mono {heap : Heap} {result : Except Error Value} (keeps : known.Keeps heap)
    (shows' : Shows concealed known (Value.InView concealed) result) :
    Shows concealed heap (Value.InView concealed) result := by
  cases result with
  | ok value => exact Value.InView.mono keeps shows'
  | error error => exact Value.InView.mono keeps shows'

theorem Shows.bind {heap : Heap} {holds : β → Prop} {first : Except Error β}
    {next : β → Except Error α} (shows' : Shows concealed heap (fun _ => holds) first)
    (further : ∀ b, holds b → Shows concealed heap gives (next b)) :
    Shows concealed heap gives (first >>= next) := by
  cases first with
  | ok b => exact further b shows'
  | error error => exact shows'

theorem Shows.map {heap : Heap} {holds : β → Prop} {first : Except Error β} {f : β → α}
    (shows' : Shows concealed heap (fun _ => holds) first)
    (further : ∀ b, holds b → gives heap (f b)) : Shows concealed heap gives (first.map f) := by
  cases first with
  | ok b => exact further b shows'
  | error error => exact shows'

/-! ## Steps -/

theorem shown_now {event : Event} {s : σ} (closed : Stage.Closed concealed s) :
    Moment.Shown concealed (Stage.heap s) (Stage.heap s) ⟨event, s⟩ :=
  ⟨closed, .refl _, .refl _⟩

/-- A computation that agrees with a blind one is as blind. -/
theorem Computation.BlindFrom.of_agree {body other : Computation σ α} {s : σ}
    (blind : other.BlindFrom concealed s gives) (here : body.Agree other s)
    (veiled : body.Agree other (Stage.veil concealed s)) : body.BlindFrom concealed s gives where
  run := by rw [veiled.1, here.1, blind.run]
  trail := by rw [veiled.2, here.2, blind.trail]
  moment := here.1 ▸ here.2 ▸ blind.moment
  ordered := here.2 ▸ blind.ordered
  last := here.1 ▸ blind.last
  keeps := here.1 ▸ blind.keeps
  outcome := here.1 ▸ blind.outcome

theorem blind_conclude {result : Except Error α}
    (shows' : ∀ heap, known.Keeps heap → Shows concealed heap gives result) :
    (Computation.conclude result : Computation σ α).Blind concealed known gives :=
  fun _ closed keeps => ⟨rfl, rfl, List.forall_mem_nil _, .nil, closed, .refl _, shows' _ keeps⟩

theorem blind_pure {a : α} (holds : ∀ heap, known.Keeps heap → gives heap a) :
    (Computation.pure a : Computation σ α).Blind concealed known gives :=
  fun _ closed keeps => ⟨rfl, rfl, List.forall_mem_nil _, .nil, closed, .refl _, holds _ keeps⟩

theorem blind_exhausted : (Computation.exhausted : Computation σ α).Blind concealed known gives :=
  fun _ closed _ => ⟨rfl, rfl, List.forall_mem_nil _, .nil, closed, .refl _, trivial⟩

theorem blind_require {asserted : Except Defect α} :
    (Computation.require asserted : Computation σ α).Blind concealed known fun _ _ => True := by
  intro s closed _
  cases asserted <;>
    exact ⟨rfl, rfl, List.forall_mem_nil _, .nil, closed, .refl _, trivial⟩

theorem blind_inspect {look : σ → Except Error α}
    (same : ∀ s, Stage.Closed concealed s → known.Keeps (Stage.heap s) →
      look (Stage.veil concealed s) = look s)
    (shows' : ∀ s, Stage.Closed concealed s → known.Keeps (Stage.heap s) →
      Shows concealed (Stage.heap s) gives (look s)) :
    (Computation.inspect look).Blind concealed known gives := by
  intro s closed keeps
  have looked := same s closed keeps
  refine ⟨?_, ?_, ?_, ?_, closed, .refl _, shows' s closed keeps⟩
  · simp only [Computation.inspect, looked, Prod.map, id]
  · simp only [Computation.inspect, looked]
    cases look s <;> rfl
  · simp only [Computation.inspect]
    cases look s with
    | ok a => exact List.forall_mem_nil _
    | error error => exact List.forall_mem_singleton.mpr (shown_now closed)
  · simp only [Computation.inspect]
    cases look s with
    | ok a => exact .nil
    | error error => exact List.pairwise_singleton _ _

theorem blind_mark {event : Event} {change : σ → σ}
    (changes : ∀ s, Stage.Closed concealed s → known.Keeps (Stage.heap s) →
      Stage.Closed concealed (change s) ∧ Stage.heap (change s) = Stage.heap s ∧
        change (Stage.veil concealed s) = Stage.veil concealed (change s)) :
    (Computation.mark event change).Blind concealed known fun _ _ => True := by
  intro s closed keeps
  obtain ⟨after, same, veiled⟩ := changes s closed keeps
  have kept : (Stage.heap s).Keeps (Stage.heap (change s)) := same ▸ .refl _
  refine ⟨?_, ?_, List.forall_mem_singleton.mpr ⟨after, kept, .refl _⟩,
    List.pairwise_singleton _ _, after, kept, trivial⟩
  · exact congrArg (Prod.mk (Outcome.value ())) veiled
  · simp only [Computation.mark, veiled]
    rfl

/-- A change that is made under the veil as it is made without it. -/
theorem blind_update {step : σ → Except Error (α × σ)}
    (same : ∀ s, Stage.Closed concealed s → known.Keeps (Stage.heap s) →
      step (Stage.veil concealed s) = (step s).map (Prod.map id (Stage.veil concealed)))
    (value : ∀ s, Stage.Closed concealed s → known.Keeps (Stage.heap s) → ∀ a after,
      step s = .ok (a, after) → Stage.Closed concealed after ∧
        (Stage.heap s).Keeps (Stage.heap after) ∧ gives (Stage.heap after) a)
    (error : ∀ s, Stage.Closed concealed s → known.Keeps (Stage.heap s) → ∀ error,
      step s = .error error → error.InView concealed (Stage.heap s)) :
    (Computation.update step).Blind concealed known gives := by
  intro s closed keeps
  have veiled := same s closed keeps
  cases stepped : step s with
  | ok made =>
      obtain ⟨a, after⟩ := made
      obtain ⟨done, kept, holds⟩ := value s closed keeps a after stepped
      rw [stepped] at veiled
      refine ⟨?_, ?_, ?_, ?_, ?_, ?_, ?_⟩ <;>
        simp only [Computation.update, veiled, stepped, Except.map]
      · rfl
      · rfl
      · exact List.forall_mem_singleton.mpr ⟨done, kept, .refl _⟩
      · exact List.pairwise_singleton _ _
      · exact done
      · exact kept
      · exact holds
  | error failed =>
      have seen := error s closed keeps failed stepped
      rw [stepped] at veiled
      refine ⟨?_, ?_, ?_, ?_, ?_, ?_, ?_⟩ <;>
        simp only [Computation.update, veiled, stepped, Except.map]
      · rfl
      · rfl
      · exact List.forall_mem_singleton.mpr (shown_now closed)
      · exact List.pairwise_singleton _ _
      · exact closed
      · exact .refl _
      · exact seen

/-! ## Sequences -/

namespace Computation.Blind

theorem weaken {body : Computation σ α} (blind : body.Blind concealed known gives)
    (keeps : known.Keeps later) : body.Blind concealed later gives :=
  fun s closed further => blind s closed (keeps.trans further)

/-- What ends where a blind computation has ended, and adds no event, is as blind. -/
theorem of_first {first : Computation σ β} {body : Computation σ α} {s : σ}
    (blind : first.BlindFrom concealed s middle) (outcome : Outcome α)
    (run : body.run s = (outcome, (first.run s).2))
    (under : body.run (Stage.veil concealed s) = (outcome, Stage.veil concealed (first.run s).2))
    (trail : body.trail s = first.trail s)
    (trailUnder : body.trail (Stage.veil concealed s) = first.trail (Stage.veil concealed s))
    (shows' : outcome.Shows concealed (Stage.heap (first.run s).2) gives) :
    body.BlindFrom concealed s gives := by
  refine ⟨?_, ?_, ?_, ?_, ?_, ?_, ?_⟩ <;> simp only [run, under, trail, trailUnder]
  · rfl
  · exact blind.trail
  · exact blind.moment
  · exact blind.ordered
  · exact blind.last
  · exact blind.keeps
  · exact shows'

/-- One blind computation after another. -/
theorem of_value {first : Computation σ β} {next : β → Computation σ α} {s t : σ} {b : β}
    (blind : first.BlindFrom concealed s middle) (ended : first.run s = (.value b, t))
    (after : (next b).BlindFrom concealed t gives) :
    (first >>= next).BlindFrom concealed s gives := by
  have kept := blind.keeps
  have veiled := blind.run
  have before := blind.moment
  rw [ended] at kept veiled before
  have run := Computation.run_bind_of_value ended next
  have trail := Computation.trail_bind_of_value ended next
  have under := Computation.run_bind_of_value veiled next
  have trailUnder := Computation.trail_bind_of_value veiled next
  refine ⟨?_, ?_, ?_, ?_, ?_, ?_, ?_⟩ <;> simp only [run, under, trail, trailUnder]
  · exact after.run
  · rw [List.map_append, blind.trail, after.trail]
  · refine List.forall_mem_append.mpr ⟨fun moment member => ?_, fun moment member => ?_⟩
    · have shown := before moment member
      exact ⟨shown.closed, shown.since, shown.ends.trans after.keeps⟩
    · have shown := after.moment moment member
      exact ⟨shown.closed, kept.trans shown.since, shown.ends⟩
  · exact List.pairwise_append.mpr ⟨blind.ordered, after.ordered, fun one early other late =>
      (before one early).ends.trans (after.moment other late).since⟩
  · exact after.last
  · exact kept.trans after.keeps
  · exact after.outcome

theorem bind {first : Computation σ β} {next : β → Computation σ α}
    (blind : first.Blind concealed known middle)
    (further : ∀ later b, known.Keeps later → middle later b →
      (next b).Blind concealed later gives) :
    (first >>= next).Blind concealed known gives := by
  intro s closed keeps
  have before := blind s closed keeps
  have gave := before.outcome
  have veiled := before.run
  -- Anything but a value ends the sequence, with the veil and without it.
  have stopped (none : ∀ b, (first.run s).1 ≠ .value b) (outcome : Outcome α)
      (shows' : outcome.Shows concealed (Stage.heap (first.run s).2) gives)
      (run : (first >>= next).run s = (outcome, (first.run s).2))
      (under : (first >>= next).run (Stage.veil concealed s) =
        (outcome, Stage.veil concealed (first.run s).2)) :
      (first >>= next).BlindFrom concealed s gives := by
    refine of_first before outcome run under ?_ ?_ shows'
    · exact Computation.trail_bind_of_ne_value none next
    · refine Computation.trail_bind_of_ne_value (fun b given => none b ?_) next
      rw [before.run] at given
      exact given
  rcases ended : first.run s with ⟨outcome, t⟩
  rw [ended] at veiled stopped gave
  cases outcome with
  | value b =>
      have last := before.last
      have kept := before.keeps
      rw [ended] at last kept
      exact of_value before ended (further _ b (keeps.trans kept) gave t last (.refl _))
  | raised error =>
      exact stopped nofun (.raised error) gave (Computation.run_bind_of_raised ended next)
        (Computation.run_bind_of_raised veiled next)
  | broken defect =>
      exact stopped nofun (.broken defect) trivial (Computation.run_bind_of_broken ended next)
        (Computation.run_bind_of_broken veiled next)
  | outOfFuel =>
      exact stopped nofun .outOfFuel trivial (Computation.run_bind_of_outOfFuel ended next)
        (Computation.run_bind_of_outOfFuel veiled next)

/-- Go on with what is found in the state. -/
theorem look {look : σ → Except Error β} {next : β → Computation σ α}
    (middle : Heap → β → Prop)
    (same : ∀ s, Stage.Closed concealed s → known.Keeps (Stage.heap s) →
      look (Stage.veil concealed s) = look s)
    (shows' : ∀ s, Stage.Closed concealed s → known.Keeps (Stage.heap s) →
      Shows concealed (Stage.heap s) middle (look s))
    (further : ∀ later b, known.Keeps later → middle later b →
      (next b).Blind concealed later gives) :
    (Computation.inspect look >>= next).Blind concealed known gives :=
  (blind_inspect same shows').bind further

/-- Go on with the state, of which the next part sees nothing concealed. -/
theorem get {next : σ → Computation σ α}
    (same : ∀ s, next (Stage.veil concealed s) = next s)
    (further : ∀ s, Stage.Closed concealed s → known.Keeps (Stage.heap s) →
      (next s).Blind concealed known gives) :
    (Computation.get >>= next).Blind concealed known gives := by
  intro s closed keeps
  have blind := further s closed keeps s closed keeps
  have under := Computation.agree_inspect_bind_of_ok Except.ok
    (rfl : Except.ok (Stage.veil concealed s) = .ok (Stage.veil concealed s)) next
  rw [same] at under
  exact blind.of_agree (Computation.agree_inspect_bind_of_ok Except.ok rfl next) under

theorem result {body : Computation σ α} (blind : body.Blind concealed known gives) :
    body.result.Blind concealed known fun heap result => Shows concealed heap gives result := by
  intro s closed keeps
  have before := blind s closed keeps
  have veiled := before.run
  have gave := before.outcome
  rcases ended : body.run s with ⟨outcome, t⟩
  rw [ended] at veiled gave
  cases outcome with
  | value a =>
      refine of_first before (.value (.ok a)) ?_ ?_ rfl rfl ?_
      all_goals simp only [Computation.result, ended, veiled, Prod.map, id]
      exact gave
  | raised error =>
      refine of_first before (.value (.error error)) ?_ ?_ rfl rfl ?_
      all_goals simp only [Computation.result, ended, veiled, Prod.map, id]
      exact gave
  | broken defect =>
      refine of_first before (.broken defect) ?_ ?_ rfl rfl trivial
      all_goals simp only [Computation.result, ended, veiled, Prod.map, id]
  | outOfFuel =>
      refine of_first before .outOfFuel ?_ ?_ rfl rfl trivial
      all_goals simp only [Computation.result, ended, veiled, Prod.map, id]

theorem repeated {body : Computation σ α} (blind : body.Blind concealed known gives)
    (count : Nat) : (Computation.repeated count body).Blind concealed known fun _ _ => True := by
  induction count generalizing known with
  | zero => exact blind_pure fun _ _ => trivial
  | succ count ih => exact blind.bind fun later _ keeps _ => ih (blind.weaken keeps)

/-- What is blind on a part of a state is blind on the whole, if the rest stays closed. -/
theorem onPart {part : τ → σ} {put : τ → σ → τ} {body : Computation σ α}
    (start : ∀ t, Stage.Closed concealed t → known.Keeps (Stage.heap t) →
      Stage.Closed concealed (part t) ∧ Stage.heap (part t) = Stage.heap t ∧
        part (Stage.veil concealed t) = Stage.veil concealed (part t))
    (finish : ∀ t s, Stage.Closed concealed t → Stage.Closed concealed s →
      (Stage.heap t).Keeps (Stage.heap s) →
        Stage.Closed concealed (put t s) ∧ Stage.heap (put t s) = Stage.heap s)
    (veiled : ∀ t s, put (Stage.veil concealed t) (Stage.veil concealed s) =
      Stage.veil concealed (put t s))
    (blind : body.Blind concealed known gives) :
    (Computation.onPart part put body).Blind concealed known gives := by
  intro t closed keeps
  obtain ⟨inside, same, under⟩ := start t closed keeps
  have inner := blind (part t) inside (same ▸ keeps)
  have kept := inner.keeps
  rw [same] at kept
  obtain ⟨outside, heap⟩ := finish t _ closed inner.last kept
  have around (moment) (member : moment ∈ body.trail (part t)) :
      (Stage.Closed concealed (put t moment.state) ∧
        Stage.heap (put t moment.state) = Stage.heap moment.state) ∧
      (Stage.heap t).Keeps (Stage.heap moment.state) ∧
        (Stage.heap moment.state).Keeps (Stage.heap (body.run (part t)).2) := by
    have shown := inner.moment moment member
    have since := shown.since
    rw [same] at since
    exact ⟨finish t moment.state closed shown.closed since, since, shown.ends⟩
  refine ⟨?_, ?_, ?_, ?_, outside, heap ▸ kept, heap ▸ inner.outcome⟩
  · simp only [Computation.onPart, under, inner.run, Prod.map, id, veiled]
  · simp only [Computation.onPart, under, inner.trail, List.map_map]
    refine List.map_congr_left fun moment _ => ?_
    simp only [Function.comp_apply, Moment.map, veiled]
  · intro moment member
    obtain ⟨within, listed, rfl⟩ := List.mem_map.mp member
    obtain ⟨⟨outer, also⟩, since, ends⟩ := around within listed
    exact ⟨outer, also ▸ since, also ▸ heap ▸ ends⟩
  · refine List.pairwise_map.mpr (inner.ordered.imp_of_mem fun {one other} early late keeps => ?_)
    have first := (around one early).1.2
    have second := (around other late).1.2
    exact first ▸ second ▸ keeps

end Computation.Blind

end Blindness

/-! ## Machines and activations -/

section Machines

variable {α : Type} {concealed : Identity → Bool} {known : Heap} {gives : Heap → α → Prop}

theorem blind_onMachine {body : Computation Machine α} (blind : body.Blind concealed known gives) :
    (Activation.onMachine body).Blind concealed known gives :=
  blind.onPart (fun _ closed _ => ⟨closed.machine, rfl, rfl⟩)
    (fun _ _ closed after keeps => ⟨closed.withMachine keeps after, rfl⟩) fun _ _ => rfl

theorem blind_inFrame {body : Computation Activation Value} {frame : Frame}
    (locals : frame.locals.Every (Value.InView concealed known))
    (blind : body.Blind concealed known (Value.InView concealed)) :
    (Machine.inFrame frame body).Blind concealed known (Value.InView concealed) := by
  refine blind.onPart (fun machine closed keeps => ?_) ?_
    fun _ _ => rfl
  · exact ⟨⟨closed, locals.mono fun _ seen => seen.mono keeps⟩, rfl, rfl⟩
  · exact fun _ activation _ after _ => ⟨Activation.Closed.machine after, rfl⟩

theorem World.Blind.unveiled {world : World} {look : World → Except Error α} {holds : α → Prop}
    (blind : world.Blind concealed id holds look) : look (world.veil concealed) = look world := by
  rw [blind.same]
  cases look world <;> rfl

theorem World.Blind.shows {world : World} {look : World → Except Error α} {holds : α → Prop}
    (blind : world.Blind concealed id holds look) :
    Shows concealed world.heap (fun _ => holds) (look world) := by
  cases looked : look world with
  | ok a => exact blind.value a looked
  | error error => exact blind.error error looked

theorem blind_look (look : World → Except Error α)
    (blind : ∀ world : World, world.Closed concealed → known.Keeps world.heap →
      world.Blind concealed id (gives world.heap) look) :
    (Computation.inspect fun machine : Machine => look machine.world).Blind concealed known
      gives :=
  blind_inspect (fun machine closed keeps => (blind machine.world closed.world keeps).unveiled)
    fun machine closed keeps => (blind machine.world closed.world keeps).shows

theorem blind_machine_update {step : World → Except Error (α × World)}
    (blind : ∀ world : World, world.Closed concealed → known.Keeps world.heap →
      world.Blind concealed (Prod.map id (World.veil concealed))
        (fun made => made.2.Closed concealed ∧ world.heap.Keeps made.2.heap ∧
          gives made.2.heap made.1) step) :
    (Machine.update step).Blind concealed known gives := by
  refine blind_update (fun machine closed keeps => ?_) (fun machine closed keeps a after made => ?_)
    fun machine closed keeps error refused => ?_
  · have same := (blind machine.world closed.world keeps).same
    change (step (machine.world.veil concealed)).map _ = _
    rw [same]
    cases step machine.world <;> rfl
  · cases stepped : step machine.world with
    | ok pair =>
        rw [stepped] at made
        cases made
        obtain ⟨held, kept, holds⟩ := (blind machine.world closed.world keeps).value pair stepped
        exact ⟨closed.withWorld kept held, kept, holds⟩
    | error error =>
        rw [stepped] at made
        cases made
  · cases stepped : step machine.world with
    | ok pair =>
        rw [stepped] at refused
        cases refused
    | error failed =>
        rw [stepped] at refused
        cases refused
        exact (blind machine.world closed.world keeps).error _ stepped

theorem blind_step {step : World → Except Error (Value × World)}
    (blind : ∀ world : World, world.Closed concealed → known.Keeps world.heap →
      world.BlindStep concealed step) :
    (Machine.update step).Blind concealed known (Value.InView concealed) :=
  blind_machine_update fun world closed keeps =>
    have so := blind world closed keeps
    ⟨so.same, fun made given => ⟨(so.value made given).world, (so.value made given).keeps,
      (so.value made given).value⟩, so.error⟩

end Machines

end ScriptCore
