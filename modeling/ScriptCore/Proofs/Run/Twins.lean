import ScriptCore.Proofs.World.Bodies
import ScriptCore.Session

/-!
# Machines that differ in their limit

Two machines are twins if they differ in nothing but the greatest number of running
functions, and no function body asks for it.  The question for this number is the only
operation that tells one twin from the other.
-/

namespace ScriptCore

/-! ## Asking for the limit -/

mutual

/-- Whether the limit of running functions is asked for anywhere in an expression. -/
def Expr.readsLimit : Expr → Bool
  | .literal _ => false
  | .sequence items => anyReadsLimit items
  | .branch condition yes no => condition.readsLimit || yes.readsLimit || no.readsLimit
  | .loop _ body => body.readsLimit
  | .call _ operands => anyReadsLimit operands
  | .apply operation operands => operation = .errors .callLimit || anyReadsLimit operands
  | .define _ _ _ body defaults => body.readsLimit || anyReadsLimit defaults
  | .guarded _ _ body handlers => body.readsLimit || anyReadsLimit handlers

def Expr.anyReadsLimit : List Expr → Bool
  | [] => false
  | item :: rest => item.readsLimit || anyReadsLimit rest

end

def Body.readsLimit : Body → Bool
  | .user body => body.readsLimit
  | .native _ => false

namespace World

/-- No function body asks for the limit. -/
def Oblivious (world : World) : Prop := ∀ body ∈ world.bodies, body.readsLimit = false

section Oblivious

variable {world next : World}

theorem Oblivious.of_addsNatives (oblivious : world.Oblivious) (adds : world.AddsNatives next) :
    next.Oblivious := by
  obtain ⟨natives, same⟩ := adds
  intro body member
  rw [same] at member
  rcases List.mem_append.mp member with old | new
  · exact oblivious body old
  · obtain ⟨builtin, _, rfl⟩ := List.mem_map.mp new
    rfl

theorem Oblivious.of_bodies_eq (oblivious : world.Oblivious) (same : next.bodies = world.bodies) :
    next.Oblivious :=
  oblivious.of_addsNatives (.of_bodies_eq same)

theorem Oblivious.defineFunction (oblivious : world.Oblivious) (name : Name)
    (parameters : List Parameter) (doc : Option String) {body : Expr}
    (silent : body.readsLimit = false) :
    Gives (·.2.Oblivious) (world.defineFunction name parameters doc body) := by
  unfold World.defineFunction
  split
  · exact gives_error _
  · refine gives_ok.mpr fun other member => ?_
    rcases List.mem_append.mp member with old | new
    · exact oblivious other old
    · rw [List.mem_singleton.mp new]
      exact silent

theorem Oblivious.body? (oblivious : world.Oblivious) {id : BodyId} {body : Expr}
    (found : world.body? id = some (.user body)) : body.readsLimit = false :=
  oblivious (.user body) (List.mem_of_getElem? found)

/-- A fresh world has no bodies but natives. -/
theorem oblivious_fresh : World.fresh.Oblivious := by
  have natives (entries : List Builtin.Entry) (world : World) (oblivious : world.Oblivious) :
      (entries.foldl addBuiltin world).Oblivious := by
    induction entries generalizing world with
    | nil => exact oblivious
    | cons entry rest ih =>
        refine ih _ (oblivious.of_addsNatives ⟨[entry.builtin], ?_⟩)
        unfold addBuiltin
        cases entry.owner with
        | some owner => rfl
        | none => rfl
  exact natives Builtin.entries bare nofun

end Oblivious

end World

/-! ## Twins -/

/-- Two machines that differ in the limit of running functions and in nothing else. -/
structure Machine.Alike (left right : Machine) : Prop where
  world : right.world = left.world
  frames : right.calls.frames = left.calls.frames
  handling : right.handling = left.handling

structure Activation.Alike (left right : Activation) : Prop where
  frame : right.frame = left.frame
  machine : left.machine.Alike right.machine

section Alike

variable {left right : Machine} (alike : left.Alike right)

include alike

theorem Machine.Alike.diagnostic : right.diagnostic = left.diagnostic := by
  unfold Machine.diagnostic CallStack.depth
  rw [alike.world, alike.frames]

/-- Of what is asked about calls and errors only the limit differs. -/
theorem Machine.Alike.performError {op : ErrorOp} (other : op ≠ .callLimit)
    (operands : List Value) : op.perform right operands = op.perform left operands := by
  have reraise : right.reraise = left.reraise := by
    unfold Machine.reraise Machine.current?
    rw [alike.handling]
  unfold ErrorOp.perform
  simp only [alike.world, alike.frames, alike.handling, alike.diagnostic, reraise,
    Machine.current?, CallStack.depth]
  split
  -- The ninth case is the question for the limit.
  case h_9 => exact absurd rfl other
  all_goals rfl

/-- Every operation but the question for the limit does the same in machines that are alike. -/
theorem Machine.Alike.perform {op : Operation} (other : op ≠ .errors .callLimit) (frame : Frame)
    (operands : List Value) :
    op.perform right frame operands = op.perform left frame operands := by
  unfold Operation.perform
  cases op with
  | errors op =>
      have asked : op ≠ .callLimit := fun same => other (congrArg Operation.errors same)
      simp only [alike.performError asked]
  | attributes | make | names | types | values => simp only [alike.world]

end Alike

namespace Run

/-- Two machines of which the second one has another limit, and no body asks for it. -/
structure Twins (least : Nat) (most : Option Nat) (small large : Machine) : Prop where
  alike : small.Alike large
  least : small.calls.limit = some least
  most : large.calls.limit = most
  oblivious : small.world.Oblivious

/-- Twins in the same frame. -/
structure FrameTwins (least : Nat) (most : Option Nat) (small large : Activation) : Prop where
  frame : large.frame = small.frame
  machine : Twins least most small.machine large.machine

section Twins

variable {least : Nat} {most : Option Nat}

theorem FrameTwins.alike {small large : Activation} (twins : FrameTwins least most small large) :
    small.Alike large :=
  ⟨twins.frame, twins.machine.alike⟩

/-- Twins stay twins in a new world. -/
theorem Twins.withWorld {small large : Machine} (twins : Twins least most small large)
    {world : World} (oblivious : world.Oblivious) :
    Twins least most { small with world } { large with world } :=
  ⟨⟨rfl, twins.alike.frames, twins.alike.handling⟩, twins.least, twins.most, oblivious⟩

/-- Twins stay twins when the errors being handled change alike. -/
theorem Twins.mapHandling {small large : Machine} (twins : Twins least most small large)
    (change : List Error → List Error) :
    Twins least most { small with handling := change small.handling }
      { large with handling := change large.handling } :=
  ⟨⟨twins.alike.world, twins.alike.frames, congrArg change twins.alike.handling⟩, twins.least,
    twins.most, twins.oblivious⟩

/-- Fresh machines with two limits are twins. -/
theorem frameTwins_start (least : Nat) (most : Option Nat) :
    FrameTwins least most (Session.start (some least)) (Session.start most) :=
  ⟨rfl, ⟨rfl, rfl, rfl⟩, rfl, rfl, World.oblivious_fresh⟩

end Twins

end Run

end ScriptCore
