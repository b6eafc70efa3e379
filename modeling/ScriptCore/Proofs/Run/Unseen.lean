import ScriptCore.Proofs.Run.Mirrors
import ScriptCore.Proofs.Run.Twins

/-!
# The interpreter does not see its limit

Twin machines run every expression that does not ask for the limit, and every call,
side by side: entering a function is the only step whose outcome the limit decides.
-/

namespace ScriptCore

namespace Activation

/-- A step that may change the frame and the world, but neither calls nor handled errors. -/
def change {α : Type} (act : Activation → Except Error (α × Frame × World)) :
    Computation Activation α :=
  .update fun activation => (act activation).map fun (a, frame, world) =>
    (a, { frame, machine := { activation.machine with world } })

end Activation

namespace Run

variable {α : Type} {least : Nat} {most : Option Nat}

/-! ## Steps of twins -/

theorem mirrors_machine_update {step : World → Except Error (α × World)}
    (kept : ∀ world, world.Oblivious → Gives (·.2.Oblivious) (step world)) :
    Mirrors (Twins least most) (Machine.update step) := by
  refine mirrors_update ?_ ?_
  · intro small large twins
    rw [twins.alike.world]
  · rintro small large ⟨a, world⟩ twins stepped
    exact ⟨rfl, twins.withWorld (kept _ twins.oblivious _ stepped)⟩

/-- A change of the world that defines nothing. -/
theorem mirrors_keep {step : World → Except Error (α × World)}
    (stays : ∀ world, Gives (world.Stays ·.2) (step world)) :
    Mirrors (Twins least most) (Machine.update step) :=
  mirrors_machine_update fun world oblivious made stepped =>
    oblivious.of_bodies_eq (stays world made stepped).bodies

theorem mirrors_change (act : Activation → Except Error (α × Frame × World))
    (same : ∀ small large, small.Alike large → act large = act small)
    (kept : ∀ activation, activation.machine.world.Oblivious →
      Gives (·.2.2.Oblivious) (act activation)) :
    Mirrors (FrameTwins least most) (Activation.change act) := by
  refine mirrors_update ?_ ?_
  · intro small large twins
    exact same small large twins.alike
  · rintro small large ⟨a, frame, world⟩ twins acted
    exact ⟨rfl, rfl, twins.machine.withWorld (kept small twins.machine.oblivious _ acted)⟩

theorem mirrors_onMachine {inner : Computation Machine α}
    (mirrors : Mirrors (Twins least most) inner) :
    Mirrors (FrameTwins least most) (Activation.onMachine inner) :=
  mirrors_onPart (fun _ _ twins => twins.machine) (fun _ _ _ _ twins after => ⟨twins.frame, after⟩)
    mirrors

theorem mirrors_inFrame {body : Computation Activation Value} (frame : Frame)
    (mirrors : Mirrors (FrameTwins least most) body) :
    Mirrors (Twins least most) (Machine.inFrame frame body) :=
  mirrors_onPart (fun _ _ twins => ⟨rfl, twins⟩) (fun _ _ _ _ _ after => after.machine) mirrors

/-! ## Entering and leaving functions -/

section Functions

variable {name : Name} {body : Computation Machine Value}

/-- A function is let in by both twins, or the first one refuses it. -/
theorem mirrors_enter (roomier : ∀ bound ∈ most, least ≤ bound) (name : Name) :
    Mirrors (Twins least most) (Machine.enter name) := by
  intro small large twins
  have depth : large.calls.depth = small.calls.depth := congrArg List.length twins.alike.frames
  cases pushed : small.calls.push name with
  | error error =>
      -- Whatever the second stack says, its next event is this call.
      rw [(Machine.enter_of_error pushed).2]
      refine .inr ?_
      cases other : large.calls.push name with
      | error error =>
          rw [(Machine.enter_of_error other).2]
          exact .here rfl
      | ok calls =>
          rw [(Machine.enter_of_ok other).2]
          exact .here rfl
  | ok calls =>
      have room : ∀ bound ∈ large.calls.limit, large.calls.depth < bound := by
        intro bound limit
        rw [twins.most] at limit
        have few := CallStack.depth_lt_of_push_eq_ok pushed least twins.least
        exact depth ▸ Nat.lt_of_lt_of_le few (roomier bound limit)
      have other := CallStack.push_of_room name room
      obtain ⟨frames, limit⟩ := CallStack.push_eq_ok pushed
      obtain ⟨entered, trail⟩ := Machine.enter_of_ok pushed
      obtain ⟨follows, further⟩ := Machine.enter_of_ok other
      rw [entered, trail, follows, further]
      refine .single rfl ⟨⟨twins.alike.world, ?_, twins.alike.handling⟩, ?_, twins.most,
        twins.oblivious⟩ _
      · exact (congrArg (name :: ·) twins.alike.frames).trans frames.symm
      · exact limit.trans twins.least

theorem mirrors_leave (name : Name) : Mirrors (Twins least most) (Machine.leave name) := by
  intro small large twins
  have frames := twins.alike.frames
  simp only [Machine.leave]
  cases popped : small.calls.pop with
  | error defect =>
      cases other : large.calls.pop with
      | error also =>
          rw [(CallStack.pop_eq_error popped).2, (CallStack.pop_eq_error other).2]
          exact .conclude twins _
      | ok below =>
          obtain ⟨⟨top, running⟩, _⟩ := CallStack.pop_eq_ok other
          rw [running, (CallStack.pop_eq_error popped).1] at frames
          cases frames
  | ok calls =>
      obtain ⟨⟨top, running⟩, limit⟩ := CallStack.pop_eq_ok popped
      cases other : large.calls.pop with
      | error defect =>
          rw [running, (CallStack.pop_eq_error other).1] at frames
          cases frames
      | ok below =>
          obtain ⟨⟨also, nested⟩, bound⟩ := CallStack.pop_eq_ok other
          rw [running, nested] at frames
          exact .single rfl ⟨⟨twins.alike.world, (List.cons.inj frames).2, twins.alike.handling⟩,
            limit.trans twins.least, bound.trans twins.most, twins.oblivious⟩ _

theorem mirrors_within (roomier : ∀ bound ∈ most, least ≤ bound)
    (mirrors : Mirrors (Twins least most) body) :
    Mirrors (Twins least most) (Machine.within name body) :=
  mirrors_bind (mirrors_enter roomier name) fun _ => mirrors_bind (mirrors_result mirrors) fun _ =>
    mirrors_bind (mirrors_leave name) fun _ => mirrors_conclude _

end Functions

/-! ## Try regions -/

section Regions

variable {handler : Computation Activation Value}

theorem mirrors_handle (region : Region) (index : Nat) (error : Error)
    (mirrors : Mirrors (FrameTwins least most) handler) :
    Mirrors (FrameTwins least most) (Activation.handle region index error handler) := by
  refine mirrors_bind (mirrors_mark rfl ?_) fun _ => mirrors_bind (mirrors_result mirrors)
    fun _ => mirrors_bind (mirrors_mark rfl ?_) fun _ => mirrors_bind (mirrors_require _)
    fun _ => mirrors_conclude _
  · intro small large twins
    exact ⟨twins.frame, twins.machine.mapHandling (error :: ·)⟩
  · intro small large twins
    exact ⟨twins.frame, twins.machine.mapHandling List.tail⟩

theorem mirrors_dispatch {clauses : List Clause} {error : Error}
    {handlers : Nat → Error → Computation Activation Value}
    (mirrors : ∀ index error, Mirrors (FrameTwins least most) (handlers index error)) :
    Mirrors (FrameTwins least most) (Activation.dispatch clauses error handlers) := by
  refine mirrors_bind (mirrors_mark rfl fun _ _ => id) fun _ => mirrors_get_bind ?_ fun _ =>
    mirrors_bind (mirrors_require _) ?_
  · intro small large twins
    rw [twins.machine.alike.world]
  · rintro ⟨route, region⟩
    cases route with
    | handle index => exact mirrors_handle region index error (mirrors index error)
    | propagate => exact mirrors_conclude _

theorem mirrors_guarded {clauses : List Clause} {body : Computation Activation Value}
    {handlers : Nat → Error → Computation Activation Value}
    (inner : Mirrors (FrameTwins least most) body)
    (mirrors : ∀ index error, Mirrors (FrameTwins least most) (handlers index error)) :
    Mirrors (FrameTwins least most) (Activation.guarded clauses body handlers) := by
  refine mirrors_bind (mirrors_result inner) fun result => ?_
  cases result with
  | ok value => exact mirrors_bind (mirrors_require _) fun _ => mirrors_pure _
  | error error => exact mirrors_dispatch mirrors

end Regions

/-! ## Expressions -/

section Expressions

variable {call : Caller}

theorem mirrors_perform {op : Operation} (other : op ≠ .errors .callLimit)
    (operands : List Value) : Mirrors (FrameTwins least most) (Activation.perform op operands) := by
  refine mirrors_change
    (fun activation => op.perform activation.machine activation.frame operands) ?_ ?_
  · intro small large alike
    rw [alike.frame, alike.machine.perform other]
  · intro activation oblivious made performed
    exact oblivious.of_addsNatives (World.addsNatives_perform _ _ _ op made performed)

theorem mirrors_define (name : Name) (declarations : List Declaration) (doc : Option String)
    {body : Expr} (silent : body.readsLimit = false) (defaults : List Value) :
    Mirrors (FrameTwins least most)
      (Activation.define name declarations doc body defaults) :=
  mirrors_onMachine <| mirrors_machine_update fun _ oblivious =>
    oblivious.defineFunction name _ doc silent

theorem mirrors_bindError (binding : Option Name) (error : Error) :
    Mirrors (FrameTwins least most) (Activation.bindError binding error) := by
  cases binding with
  | none => exact mirrors_pure ()
  | some name =>
      intro small large twins
      obtain ⟨frame, machine⟩ := twins
      simp only [Activation.bindError, Computation.update, frame, machine.alike.world]
      exact .single rfl ⟨rfl, machine.withWorld machine.oblivious⟩ _

theorem mirrors_clauses (forms : List ClauseForm) :
    Mirrors (FrameTwins least most) (Activation.clauses forms) :=
  mirrors_inspect fun _ _ twins => by rw [twins.machine.alike.world]

theorem mirrors_isTrue (value : Value) :
    Mirrors (FrameTwins least most) (Activation.isTrue value) :=
  mirrors_inspect fun _ _ twins => by rw [twins.machine.alike.world]

theorem mirrors_caller_perform
    (calls : ∀ callee arguments, Mirrors (Twins least most) (call callee arguments))
    (form : CallForm) (operands : List Value) :
    Mirrors (Twins least most) (call.perform form operands) := by
  cases operands with
  | nil =>
      cases form with
      | value | method | fast => exact mirrors_raise _
  | cons first rest =>
      cases form with
      | value keywords => exact calls first _
      | method name keywords =>
          exact mirrors_bind (mirrors_inspect fun _ _ twins => by rw [twins.alike.world])
            fun found => calls found _
      | fast name =>
          exact mirrors_bind (mirrors_inspect fun _ _ twins => by rw [twins.alike.world])
            fun found => calls found _

mutual

theorem mirrors_eval
    (calls : ∀ callee arguments, Mirrors (Twins least most) (call callee arguments)) :
    ∀ expr : Expr, expr.readsLimit = false →
      Mirrors (FrameTwins least most) (expr.eval call)
  | .literal written, _ => mirrors_pure written.value
  | .sequence items, silent => mirrors_evalLast calls items silent .none
  | .branch condition yes no, silent => by
      simp only [Expr.readsLimit, Bool.or_eq_false_iff] at silent
      obtain ⟨⟨condition, yes⟩, no⟩ := silent
      refine mirrors_bind (mirrors_eval calls _ condition) fun value =>
        mirrors_bind (mirrors_isTrue value) fun holds => ?_
      cases holds with
      | true => exact mirrors_eval calls _ yes
      | false => exact mirrors_eval calls _ no
  | .loop count body, silent =>
      mirrors_bind (mirrors_repeated count (mirrors_eval calls body silent)) fun _ =>
        mirrors_pure _
  | .call form operands, silent =>
      mirrors_bind (mirrors_evalAll calls operands silent) fun values =>
        mirrors_onMachine (mirrors_caller_perform calls form values)
  | .apply operation operands, silent => by
      simp only [Expr.readsLimit, Bool.or_eq_false_iff, decide_eq_false_iff_not] at silent
      exact mirrors_bind (mirrors_evalAll calls operands silent.2) fun values =>
        mirrors_perform silent.1 values
  | .define name declarations doc body defaults, silent => by
      simp only [Expr.readsLimit, Bool.or_eq_false_iff] at silent
      exact mirrors_bind (mirrors_evalAll calls defaults silent.2) fun values =>
        mirrors_define name declarations doc silent.1 values
  | .guarded forms binding body handlers, silent => by
      simp only [Expr.readsLimit, Bool.or_eq_false_iff] at silent
      exact mirrors_bind (mirrors_clauses forms) fun _ =>
        mirrors_guarded (mirrors_eval calls body silent.1) fun index error =>
          mirrors_bind (mirrors_bindError binding error) fun _ =>
            mirrors_evalAt calls handlers silent.2 index

theorem mirrors_evalLast
    (calls : ∀ callee arguments, Mirrors (Twins least most) (call callee arguments)) :
    ∀ items : List Expr, Expr.anyReadsLimit items = false → ∀ last : Value,
      Mirrors (FrameTwins least most) (Expr.evalLast call items last)
  | [], _, last => mirrors_pure last
  | item :: rest, silent, _ => by
      simp only [Expr.anyReadsLimit, Bool.or_eq_false_iff] at silent
      exact mirrors_bind (mirrors_eval calls item silent.1) fun value =>
        mirrors_evalLast calls rest silent.2 value

theorem mirrors_evalAll
    (calls : ∀ callee arguments, Mirrors (Twins least most) (call callee arguments)) :
    ∀ items : List Expr, Expr.anyReadsLimit items = false →
      Mirrors (FrameTwins least most) (Expr.evalAll call items)
  | [], _ => mirrors_pure []
  | item :: rest, silent => by
      simp only [Expr.anyReadsLimit, Bool.or_eq_false_iff] at silent
      exact mirrors_bind (mirrors_eval calls item silent.1) fun _ =>
        mirrors_bind (mirrors_evalAll calls rest silent.2) fun _ => mirrors_pure _

theorem mirrors_evalAt
    (calls : ∀ callee arguments, Mirrors (Twins least most) (call callee arguments)) :
    ∀ items : List Expr, Expr.anyReadsLimit items = false → ∀ index : Nat,
      Mirrors (FrameTwins least most) (Expr.evalAt call items index)
  | [], _, _ => mirrors_pure Value.none
  | item :: rest, silent, index => by
      simp only [Expr.anyReadsLimit, Bool.or_eq_false_iff] at silent
      cases index with
      | zero => exact mirrors_eval calls item silent.1
      | succ index => exact mirrors_evalAt calls rest silent.2 index

end

end Expressions

/-! ## Calls -/

section Calls

variable {call : Caller}
  (calls : ∀ callee arguments, Mirrors (Twins least most) (call callee arguments))

include calls

theorem mirrors_runBody (function : FunctionDef) (arguments : Arguments) :
    Mirrors (Twins least most) (Machine.runBody call function arguments) := by
  refine mirrors_bind (mirrors_keep fun world => world.stays_bindArguments function arguments)
    fun _ => mirrors_inspect_bind ?_ ?_
  · intro small large twins
    rw [twins.alike.world]
  · intro small large body twins found
    -- The body comes from the table, and no body of the table asks for the limit.
    refine mirrors_inFrame _ (mirrors_eval calls body ?_)
    split at found
    · rename_i known
      cases found
      exact twins.oblivious.body? known
    · cases found

theorem mirrors_total (start : Value) (items : List Value) :
    Mirrors (Twins least most) (Machine.total call start items) := by
  induction items generalizing start with
  | nil => exact mirrors_pure start
  | cons item rest ih =>
      exact mirrors_bind (mirrors_caller_perform calls (.fast "__add__") [start, item]) ih

theorem mirrors_sum (sequence start : Value) :
    Mirrors (Twins least most) (Machine.sum call sequence start) :=
  mirrors_bind (mirrors_inspect fun _ _ twins => by rw [twins.alike.world]) fun items =>
    mirrors_total calls start items

theorem mirrors_length (value : Value) :
    Mirrors (Twins least most) (Machine.length call value) := by
  unfold Machine.length
  split
  · exact mirrors_pure _
  · exact mirrors_pure _
  · refine mirrors_bind (mirrors_caller_perform calls (.method "__len__" []) [value])
      fun result => ?_
    split
    · exact mirrors_pure _
    · exact mirrors_inspect fun _ _ twins => by rw [twins.alike.world]

theorem mirrors_runNative (builtin : Builtin) (arguments : List Value) :
    Mirrors (Twins least most) (Machine.runNative call builtin arguments) := by
  unfold Machine.runNative
  split
  · exact mirrors_length calls _
  · exact mirrors_raise _
  · exact mirrors_sum calls _ _
  · exact mirrors_sum calls _ _
  · exact mirrors_raise _
  · exact mirrors_keep fun world => world.stays_runSimple _ _

theorem mirrors_construct (type : TypeId) (arguments : Arguments) :
    Mirrors (Twins least most) (Machine.construct call type arguments) := by
  refine mirrors_get_bind ?_ fun machine => ?_
  · intro small large twins
    rw [twins.alike.world]
  · split
    · refine mirrors_keep fun world => ?_
      split
      · exact gives_error _
      · exact gives_ok.mpr (by simp)
    · split
      · exact mirrors_keep fun world => by simp [World.stays_convert]
      · refine mirrors_bind (mirrors_keep fun world => gives_ok.mpr (by simp)) fun value =>
          mirrors_bind (mirrors_inspect fun _ _ twins => by rw [twins.alike.world]) fun init => ?_
        cases init with
        | some init => exact mirrors_bind (calls _ _) fun _ => mirrors_pure _
        | none => exact mirrors_pure _

theorem mirrors_callUnbound (roomier : ∀ bound ∈ most, least ≤ bound) (callee : Value)
    (arguments : Arguments) :
    Mirrors (Twins least most) (Machine.callUnbound call callee arguments) := by
  unfold Machine.callUnbound
  split
  · exact mirrors_bind (mirrors_inspect fun _ _ twins => by rw [twins.alike.world])
      fun function => mirrors_within roomier (mirrors_runBody calls function arguments)
  · exact mirrors_bind (mirrors_inspect fun _ _ twins => by rw [twins.alike.world])
      fun builtin => mirrors_runNative calls builtin _
  · exact mirrors_construct calls _ arguments
  · exact mirrors_inspect fun _ _ twins => by rw [twins.alike.world]

end Calls

/-- Twins run every call side by side, however deep calls may be nested. -/
theorem mirrors_call (roomier : ∀ bound ∈ most, least ≤ bound) (depth : Nat) (callee : Value)
    (arguments : Arguments) :
    Mirrors (Twins least most) (Machine.call depth callee arguments) := by
  -- Calls made inside may be nested one less deep, so that bodies run side by side already.
  induction depth generalizing callee arguments with
  | zero => exact mirrors_exhausted
  | succ depth ih => exact mirrors_callUnbound ih roomier _ _

end Run

end ScriptCore
