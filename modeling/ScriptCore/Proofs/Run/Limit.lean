import ScriptCore.Proofs.Run.Interpreter
import ScriptCore.Proofs.Run.Unseen

/-!
# The limit of running functions

A program of a host that does not ask for the limit does the same under every limit that is
large enough.  Under a smaller one it does the same up to the first call that is refused, and
a call is refused exactly when as many functions are running as the limit allows.
-/

namespace ScriptCore

namespace Activation

/-- Call a function whose body is a program of the host. -/
def callWith (function : FunctionDef) (arguments : Arguments)
    (body : Computation Activation Value) : Computation Activation Value :=
  onMachine <| Machine.within function.name do
    let bound ← Machine.update (Machine.bindArguments function arguments)
    Machine.inFrame (.ofArguments function.name bound) body

end Activation

namespace Run

/-! ## Programs of a host -/

/--
The programs of a host that do not ask for the limit.  They may look at everything else, change
frame and world, evaluate and call whatever they like, take errors and go on with them.  The
bodies that they define do not ask for the limit either.
-/
inductive Oblivious : {α : Type} → Computation Activation α → Prop where
  | pure {α : Type} (a : α) : Oblivious (.pure a)
  | bind {α β : Type} {first : Computation Activation α} {next : α → Computation Activation β}
      (left : Oblivious first) (right : ∀ a, Oblivious (next a)) : Oblivious (first >>= next)
  | inspect {α : Type} {look : Activation → Except Error α}
      (same : ∀ left right, left.Alike right → look right = look left) :
      Oblivious (.inspect look)
  | change {α : Type} {act : Activation → Except Error (α × Frame × World)}
      (same : ∀ left right, left.Alike right → act right = act left)
      (kept : ∀ activation, activation.machine.world.Oblivious →
        Gives (·.2.2.Oblivious) (act activation)) :
      Oblivious (Activation.change act)
  | attempt {α : Type} {body : Computation Activation α} (inner : Oblivious body) :
      Oblivious body.attempt
  | guarded {clauses : List Clause} {body : Computation Activation Value}
      {handlers : Nat → Error → Computation Activation Value} (inner : Oblivious body)
      (guards : ∀ index error, Oblivious (handlers index error)) :
      Oblivious (Activation.guarded clauses body handlers)
  | eval (depth : Nat) {expr : Expr} (silent : expr.readsLimit = false) :
      Oblivious (expr.eval (Machine.call depth))
  | call (depth : Nat) (callee : Value) (arguments : Arguments) :
      Oblivious (Activation.onMachine (Machine.call depth callee arguments))
  | callWith (function : FunctionDef) (arguments : Arguments)
      {body : Computation Activation Value} (inner : Oblivious body) :
      Oblivious (Activation.callWith function arguments body)

section Programs

variable {α : Type} {program : Computation Activation α}

theorem Oblivious.composed (oblivious : Oblivious program) :
    Composed Activation.machine program := by
  induction oblivious with
  | pure a => exact .pure a
  | bind _ _ left right => exact .bind left right
  | inspect _ => exact .inspect _
  | change _ _ => exact composed_update_map (fun _ _ => rfl) fun _ _ => rfl
  | attempt _ inner => exact .attempt inner
  | guarded _ _ inner guards => exact .guarded inner guards
  | @eval depth expr _ => exact composed_eval (composed_call depth) expr
  | call depth callee arguments => exact composed_onMachine (composed_call depth callee arguments)
  | callWith function arguments _ inner =>
      exact composed_onMachine <| .within <| .bind (composed_machine_update _) fun _ =>
        .onPart (fun _ => rfl) (fun _ _ => rfl) inner

variable {least : Nat} {most : Option Nat}

theorem Oblivious.mirrors (oblivious : Oblivious program)
    (roomier : ∀ bound ∈ most, least ≤ bound) :
    Mirrors (FrameTwins least most) program := by
  induction oblivious with
  | pure a => exact mirrors_pure a
  | bind _ _ left right => exact mirrors_bind left right
  | inspect same => exact mirrors_inspect fun small large twins => same small large twins.alike
  | change same kept => exact mirrors_change _ same kept
  | attempt _ inner => exact mirrors_attempt inner
  | guarded _ _ inner guards => exact mirrors_guarded inner guards
  | eval depth silent => exact mirrors_eval (mirrors_call roomier depth) _ silent
  | call depth callee arguments => exact mirrors_onMachine (mirrors_call roomier depth _ _)
  | callWith function arguments _ inner =>
      exact mirrors_onMachine <| mirrors_within roomier <|
        mirrors_bind (mirrors_keep fun world => world.stays_bindArguments function arguments)
          fun bound => mirrors_inFrame _ inner

end Programs

/-! ## Refused calls -/

/-- The state after a part of a trail. -/
def stateAfter {σ : Type} (start : σ) : List (Moment σ) → σ
  | [] => start
  | moment :: rest => stateAfter moment.state rest

theorem stateAfter_map {σ τ : Type} (view : σ → τ) (start : σ) (trail : List (Moment σ)) :
    stateAfter (view start) (trail.map (·.map view)) = view (stateAfter start trail) := by
  induction trail generalizing start with
  | nil => rfl
  | cons moment rest ih => exact ih moment.state

theorem Path.stateAfter_eq {first last : Status} {trail : List (Moment Machine)}
    (path : Path first trail last) : last.machine = stateAfter first.machine trail := by
  induction path with
  | done status => rfl
  | step _ _ ih => exact ih

theorem Path.last_limit {first last : Status} {trail : List (Moment Machine)}
    (path : Path first trail last) :
    last.machine.calls.limit = first.machine.calls.limit := by
  induction path with
  | done status => rfl
  | step now _ ih => exact ih.trans now.limit_eq

/-- A call is refused if the stack is full, and only then. -/
theorem Step.refuses_iff {first next : Status} {event : Event} {name : Name}
    (step : Step first event next) (called : event.called? = some name) :
    event.refuses = true ↔ first.machine.calls.limit = some first.machine.calls.depth := by
  cases step with
  | enter pushed =>
      refine ⟨nofun, fun full => ?_⟩
      exact absurd (CallStack.depth_lt_of_push_eq_ok pushed _ full) (Nat.lt_irrefl _)
  | refuse refused => exact ⟨fun _ => CallStack.limit_eq_of_push_eq_error refused, fun _ => rfl⟩
  | change | raise | leave | select | handle | finish | receive => cases called

section Refusals

variable {σ α : Type} {view : σ → Machine} {body : Computation σ α} {start : σ}

/-- A call is refused exactly when as many functions are running as the limit allows. -/
theorem Sound.refuses_iff (sound : Sound view body) {before after : List (Moment σ)}
    {event : Event} {state : σ} {name : Name}
    (trail : body.trail start = before ++ ⟨event, state⟩ :: after)
    (called : event.called? = some name) :
    event.refuses = true ↔
      (view start).calls.limit = some (view (stateAfter start before)).calls.depth := by
  have path := (sound start).path
  rw [trail, List.map_append, List.map_cons] at path
  obtain ⟨middle, early, rest⟩ := path.split
  obtain ⟨flight, now, _⟩ := rest.uncons
  have there : middle.machine = view (stateAfter start before) :=
    early.stateAfter_eq.trans (stateAfter_map view start before)
  have decides := now.refuses_iff called
  rw [early.last_limit, there] at decides
  exact decides

end Refusals

/-! ## Where two runs part -/

section Partings

variable {σ : Type} {related : σ → σ → Prop} {trail other : List (Moment σ)}

theorem Parts.exists_refusal (parts : Parts related trail other) :
    ∃ moment ∈ trail, moment.event.refuses = true := by
  induction parts with
  | here called => exact ⟨_, List.mem_cons_self, rfl⟩
  | later _ _ ih =>
      obtain ⟨moment, member, refuses⟩ := ih
      exact ⟨moment, List.mem_cons_of_mem _ member, refuses⟩

theorem not_refuses_of_matches (same : List.Forall₂ (Matches related) trail other)
    {moment : Moment σ} (member : moment ∈ trail) : moment.event.refuses = false := by
  induction same with
  | nil => cases member
  | cons first _ ih =>
      rcases List.mem_cons.mp member with rfl | later
      · exact first.accepted
      · exact ih later

/-- Parts of two runs that match lead from related states to related states. -/
theorem stateAfter_related {start twin : σ} (alike : related start twin)
    (same : List.Forall₂ (Matches related) trail other) :
    related (stateAfter start trail) (stateAfter twin other) := by
  induction same generalizing start twin with
  | nil => exact alike
  | cons first _ ih => exact ih first.state

/-- The trails match up to the first refused call. -/
theorem Parts.split {before after : List (Moment σ)} {name : Name} {state : σ}
    (parts : Parts related (before ++ ⟨.refuse name, state⟩ :: after) other)
    (first : ∀ moment ∈ before, moment.event.refuses = false) :
    ∃ same event twin rest, other = same ++ ⟨event, twin⟩ :: rest ∧
      List.Forall₂ (Matches related) before same ∧ event.called? = some name := by
  -- As long as nothing is refused, the two trails cannot part yet.
  induction before generalizing other with
  | nil =>
      cases parts with
      | here called => exact ⟨[], _, _, _, rfl, .nil, called⟩
      | later same _ => cases same.accepted
  | cons moment before ih =>
      cases parts with
      | here _ => cases first _ List.mem_cons_self
      | later same parts =>
          obtain ⟨matching, event, twin, rest, rfl, before, called⟩ :=
            ih parts fun other member => first other (List.mem_cons_of_mem _ member)
          exact ⟨_, event, twin, rest, rfl, .cons same before, called⟩

end Partings

/-! ## Two limits -/

/--
What a run under the smaller limit says about the run of the same program under the other one:
both agree if no call is refused, and they match up to the first call that is.
-/
structure Unseen {α : Type} (least : Nat) (most : Option Nat)
    (program : Computation Activation α) (small large : Activation) : Prop where
  /-- A call is refused exactly when as many functions are running as the limit allows. -/
  refused : ∀ before event state after name,
    program.trail small = before ++ ⟨event, state⟩ :: after → event.called? = some name →
      (event.refuses = true ↔ (stateAfter small before).machine.calls.depth = least)
  /-- Moment by moment the same happens, with the same outcome and states that are twins. -/
  agrees : (∀ moment ∈ program.trail small, moment.event.refuses = false) →
    Agrees (FrameTwins least most) (program.trail small) (program.trail large)
      (program.run small) (program.run large)
  /--
  Before the first refused call the same happens.  The other run makes the same call, and has
  room for it unless its limit is the same.
  -/
  parts : ∀ before name state after,
    program.trail small = before ++ ⟨.refuse name, state⟩ :: after →
      (∀ moment ∈ before, moment.event.refuses = false) →
      ∃ same event twin rest, program.trail large = same ++ ⟨event, twin⟩ :: rest ∧
        List.Forall₂ (Matches (FrameTwins least most)) before same ∧
        event.called? = some name ∧ (event.refuses = true ↔ most = some least)

/--
From a fresh machine, or from any machines that differ in the limit only, the limit is unseen
until a call is refused.
-/
theorem limit_unseen_until_refusal {least : Nat} {most : Option Nat}
    (roomier : ∀ bound ∈ most, least ≤ bound) :
    FrameTwins least most (Session.start (some least)) (Session.start most) ∧
      ∀ {α : Type} {program : Computation Activation α}, Oblivious program →
        ∀ {small large}, FrameTwins least most small large →
          Unseen least most program small large := by
  refine ⟨frameTwins_start least most, ?_⟩
  intro α program oblivious small large twins
  have abreast := oblivious.mirrors roomier small large twins
  have refused {before after : List (Moment Activation)} {event : Event} {state : Activation}
      {name : Name} (trail : program.trail small = before ++ ⟨event, state⟩ :: after)
      (called : event.called? = some name) :
      event.refuses = true ↔ (stateAfter small before).machine.calls.depth = least := by
    rw [oblivious.composed.sound.refuses_iff trail called, twins.machine.least, Option.some_inj]
    exact eq_comm
  refine ⟨fun _ _ _ _ _ => refused, ?_, ?_⟩
  · intro accepted
    rcases abreast with agrees | parts
    · exact agrees
    · obtain ⟨moment, member, refuses⟩ := parts.exists_refusal
      rw [accepted moment member] at refuses
      cases refuses
  · intro before name state after trail first
    have full := (refused trail rfl).mp rfl
    rw [trail] at abreast
    rcases abreast with agrees | parts
    · cases not_refuses_of_matches agrees.trail (List.mem_append_right _ List.mem_cons_self)
    · obtain ⟨same, event, twin, rest, other, matching, called⟩ := parts.split first
      have depth : (stateAfter large same).machine.calls.depth = least :=
        (congrArg List.length (stateAfter_related twins matching).machine.alike.frames).trans full
      have decides := oblivious.composed.sound.refuses_iff other called
      rw [twins.machine.most, depth] at decides
      exact ⟨same, event, twin, rest, other, matching, called, decides⟩

/-- A call of `f`, whose body calls `g`, in a region that takes every error. -/
def cautious : Computation Activation Value :=
  Activation.guarded [.bare]
    (Activation.callWith ⟨"f", .empty, none, ⟨0⟩⟩ {}
      (Activation.callWith ⟨"g", .empty, none, ⟨0⟩⟩ {} (.pure .none)))
    fun _ _ => .pure (.bool true)

theorem oblivious_cautious : Oblivious cautious :=
  .guarded (.callWith _ _ (.callWith _ _ (.pure _))) fun _ _ => .pure _

/-- The activation while `f` is running under the limit one. -/
def insideOfF : Activation :=
  { frame := { function := "" }
    machine := .fresh { frames := ["f"], limit := some 1, within := by simp } }

theorem limit_unseen_until_refusal_cautious :
    (∀ bound ∈ (none : Option Nat), 1 ≤ bound) ∧ Oblivious cautious ∧
      (∃ same event twin rest,
        cautious.trail (Session.start none) = same ++ ⟨event, twin⟩ :: rest ∧
          List.Forall₂ (Matches (FrameTwins 1 none)) [⟨.enter "f", insideOfF⟩, ⟨.change, insideOfF⟩]
            same ∧
          event.called? = some "g" ∧ (event.refuses = true ↔ none = some 1)) ∧
      Agrees (FrameTwins 2 none) (cautious.trail (Session.start (some 2)))
        (cautious.trail (Session.start none)) (cautious.run (Session.start (some 2)))
        (cautious.run (Session.start none)) := by
  refine ⟨nofun, oblivious_cautious, ?_, ?_⟩
  · obtain ⟨twins, unseen⟩ := @limit_unseen_until_refusal 1 none nofun
    exact (unseen oblivious_cautious twins).parts
      [⟨.enter "f", insideOfF⟩, ⟨.change, insideOfF⟩] "g" insideOfF _ rfl (by simp [Event.refuses])
  · obtain ⟨twins, unseen⟩ := @limit_unseen_until_refusal 2 none nofun
    refine (unseen oblivious_cautious twins).agrees ?_
    have accepted : ((cautious.trail (Session.start (some 2))).all (!·.event.refuses)) = true := rfl
    intro moment member
    simpa using List.all_eq_true.mp accepted moment member

end Run

end ScriptCore
