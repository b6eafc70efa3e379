import ScriptCore.Proofs.Definitions.Steps

/-!
# Courses of worlds

The trail of a run passes through every world that there is on the way.  Whatever is
evaluated or called, each of these worlds goes on to the next one by one definition, or by
something that defines nothing.
-/

namespace ScriptCore

namespace World

/-- The worlds on the way from the first one to the last one; the first one is left out. -/
inductive Course : World → List World → World → Prop where
  | done (world : World) : Course world [] world
  | step {first next last : World} {rest : List World} (now : first.Advances next)
      (later : Course next rest last) : Course first (next :: rest) last

namespace Course

theorem single {first next : World} (now : first.Advances next) : Course first [next] next :=
  .step now (.done next)

theorem append {first middle last : World} {left right : List World}
    (start : Course first left middle) (rest : Course middle right last) :
    Course first (left ++ right) last := by
  induction start with
  | done world => exact rest
  | step now _ ih => exact .step now (ih rest)

theorem isChain {first last : World} {worlds : List World} (course : Course first worlds last) :
    (first :: worlds).IsChain Advances := by
  induction course with
  | done world => exact .singleton world
  | step now _ ih => exact .cons_cons now ih

/-- What comes after a course is counted on from its last world. -/
theorem getElem?_append {first last : World} {worlds : List World}
    (course : Course first worlds last) (further : List World) (place : Nat) :
    (first :: (worlds ++ further))[worlds.length + place]? = (last :: further)[place]? := by
  induction course with
  | done world => rw [List.nil_append, List.length_nil, Nat.zero_add]
  | step _ _ ih => rw [List.length_cons, Nat.add_right_comm, List.getElem?_cons_succ,
      List.cons_append, ih]

/-- What there is anywhere on the way is there in the end. -/
theorem keeps_last {first last : World} {worlds : List World}
    (course : Course first worlds last) : ∀ world ∈ first :: worlds, world.Keeps last := by
  induction course with
  | done world => simp [Keeps.refl]
  | step now _ ih =>
      refine List.forall_mem_cons.mpr ⟨?_, ih⟩
      exact now.keeps.trans (ih _ List.mem_cons_self)

end Course

end World

/-- The world of the machine that an activation runs in. -/
abbrev Activation.world (activation : Activation) : World := activation.machine.world

namespace Run

/-- The worlds on every trail are a course from the world at the start to the one at the end. -/
def Gapless {σ α : Type} (view : σ → World) (body : Computation σ α) : Prop :=
  ∀ start, World.Course (view start) ((body.trail start).map (view ·.state))
    (view (body.run start).2)

/-! ## Steps and sequences -/

section Computations

variable {σ τ α β : Type} {view : σ → World}

theorem gapless_pure (a : α) : Gapless view (.pure a) := fun _ => .done _

theorem gapless_conclude (result : Except Error α) : Gapless view (.conclude result) :=
  fun _ => .done _

theorem gapless_exhausted : Gapless view (.exhausted : Computation σ α) := fun _ => .done _

theorem gapless_require (asserted : Except Defect α) : Gapless view (.require asserted) := by
  intro s
  cases asserted with
  | ok a => exact .done _
  | error defect => exact .done _

/-- Nothing is defined by an error that comes up. -/
theorem gapless_inspect (look : σ → Except Error α) : Gapless view (.inspect look) := by
  intro s
  simp only [Computation.inspect]
  cases look s with
  | ok a => exact .done _
  | error error => exact .single (.stays (.refl _))

theorem gapless_mark (event : Event) {change : σ → σ} (same : ∀ s, view (change s) = view s) :
    Gapless view (.mark event change) := by
  intro s
  have stays : (view s).Stays (view (change s)) := by
    rw [same]
    exact .refl _
  exact .single (.stays stays)

theorem gapless_update {step : σ → Except Error (α × σ)}
    (advances : ∀ s, Gives (fun made => (view s).Advances (view made.2)) (step s)) :
    Gapless view (.update step) := by
  intro s
  simp only [Computation.update]
  cases stepped : step s with
  | ok made => exact .single (advances s made stepped)
  | error error => exact .single (.stays (.refl _))

theorem gapless_bind {first : Computation σ α} {next : α → Computation σ β}
    (left : Gapless view first) (right : ∀ a, Gapless view (next a)) :
    Gapless view (first >>= next) := by
  intro start
  have before := left start
  by_cases gives : ∃ a, (first.run start).1 = .value a
  · obtain ⟨a, gave⟩ := gives
    have ended : first.run start = (.value a, (first.run start).2) := Prod.ext gave rfl
    rw [Computation.run_bind_of_value ended, Computation.trail_bind_of_value ended,
      List.map_append]
    exact before.append (right a _)
  · have stopped := not_exists.mp gives
    rw [Computation.state_bind_of_ne_value stopped, Computation.trail_bind_of_ne_value stopped]
    exact before

theorem gapless_result {body : Computation σ α} (inner : Gapless view body) :
    Gapless view body.result := by
  intro start
  have course := inner start
  simp only [Computation.result]
  split <;> simp_all only

theorem gapless_attempt {body : Computation σ α} (inner : Gapless view body) :
    Gapless view body.attempt := by
  refine gapless_bind (gapless_result inner) fun result => ?_
  cases result with
  | ok a => exact gapless_pure _
  | error error => exact gapless_bind (gapless_mark _ fun _ => rfl) fun _ => gapless_pure _

theorem gapless_repeated {body : Computation σ α} (count : Nat) (inner : Gapless view body) :
    Gapless view (.repeated count body) := by
  induction count with
  | zero => exact gapless_pure ()
  | succ count ih => exact gapless_bind inner fun _ => ih

theorem gapless_onPart {inside : τ → World} {part : σ → τ} {put : σ → τ → σ}
    {body : Computation τ α} (begins : ∀ s, inside (part s) = view s)
    (ends : ∀ s t, view (put s t) = inside t) (inner : Gapless inside body) :
    Gapless view (.onPart part put body) := by
  intro s
  have course := inner (part s)
  have seen : ((body.trail (part s)).map (·.map (put s))).map (view ·.state) =
      (body.trail (part s)).map (inside ·.state) := by
    rw [List.map_map]
    exact List.map_congr_left fun moment _ => ends s moment.state
  rw [begins] at course
  simp only [Computation.onPart, seen, ends]
  exact course

end Computations

/-! ## Machines -/

section Machines

variable {α : Type}

theorem gapless_machine_update {step : World → Except Error (α × World)}
    (advances : ∀ world, Gives (world.Advances ·.2) (step world)) :
    Gapless Machine.world (Machine.update step) :=
  gapless_update fun machine => gives_map.mpr fun made stepped =>
    advances machine.world made stepped

/-- A change of the world that defines nothing. -/
theorem gapless_keep {step : World → Except Error (α × World)}
    (stays : ∀ world, Gives (world.Stays ·.2) (step world)) :
    Gapless Machine.world (Machine.update step) :=
  gapless_machine_update fun world made stepped => .stays (stays world made stepped)

theorem gapless_onMachine {inner : Computation Machine α} (gapless : Gapless Machine.world inner) :
    Gapless Activation.world (Activation.onMachine inner) :=
  gapless_onPart (fun _ => rfl) (fun _ _ => rfl) gapless

theorem gapless_inFrame {body : Computation Activation Value} (frame : Frame)
    (gapless : Gapless Activation.world body) :
    Gapless Machine.world (Machine.inFrame frame body) :=
  gapless_onPart (fun _ => rfl) (fun _ _ => rfl) gapless

theorem gapless_enter (name : Name) : Gapless Machine.world (Machine.enter name) := by
  intro machine
  simp only [Machine.enter]
  cases machine.calls.push name with
  | ok calls => exact .single (.stays (.refl _))
  | error error => exact .step (.stays (.refl _)) (.single (.stays (.refl _)))

theorem gapless_leave (name : Name) : Gapless Machine.world (Machine.leave name) := by
  intro machine
  simp only [Machine.leave]
  cases machine.calls.pop with
  | ok calls => exact .single (.stays (.refl _))
  | error defect => exact .done _

theorem gapless_within {name : Name} {body : Computation Machine Value}
    (gapless : Gapless Machine.world body) : Gapless Machine.world (Machine.within name body) :=
  gapless_bind (gapless_enter name) fun _ => gapless_bind (gapless_result gapless) fun _ =>
    gapless_bind (gapless_leave name) fun _ => gapless_conclude _

end Machines

/-! ## Try regions -/

section Regions

theorem gapless_enterHandler (index : Nat) (error : Error) :
    Gapless Activation.world (Activation.enterHandler index error) :=
  gapless_mark _ fun _ => rfl

theorem gapless_exitHandler : Gapless Activation.world Activation.exitHandler :=
  gapless_mark _ fun _ => rfl

theorem gapless_handle (region : Region) (index : Nat) (error : Error)
    {handler : Computation Activation Value} (gapless : Gapless Activation.world handler) :
    Gapless Activation.world (Activation.handle region index error handler) :=
  gapless_bind (gapless_enterHandler index error) fun _ =>
    gapless_bind (gapless_result gapless) fun _ => gapless_bind gapless_exitHandler fun _ =>
      gapless_bind (gapless_require _) fun _ => gapless_conclude _

theorem gapless_dispatch {clauses : List Clause} {error : Error}
    {handlers : Nat → Error → Computation Activation Value}
    (gapless : ∀ index error, Gapless Activation.world (handlers index error)) :
    Gapless Activation.world (Activation.dispatch clauses error handlers) := by
  refine gapless_bind (gapless_mark _ fun _ => rfl) fun _ => gapless_bind (gapless_inspect _)
    fun activation => gapless_bind (gapless_require _) ?_
  rintro ⟨route, region⟩
  cases route with
  | handle index => exact gapless_handle region index error (gapless index error)
  | propagate => exact gapless_conclude _

theorem gapless_guarded {clauses : List Clause} {body : Computation Activation Value}
    {handlers : Nat → Error → Computation Activation Value}
    (inner : Gapless Activation.world body)
    (gapless : ∀ index error, Gapless Activation.world (handlers index error)) :
    Gapless Activation.world (Activation.guarded clauses body handlers) := by
  refine gapless_bind (gapless_result inner) fun result => ?_
  cases result with
  | ok value => exact gapless_bind (gapless_require _) fun _ => gapless_pure _
  | error error => exact gapless_dispatch gapless

end Regions

/-! ## Expressions -/

section Expressions

variable {call : Caller}

theorem gapless_perform (op : Operation) (operands : List Value) :
    Gapless Activation.world (Activation.perform op operands) :=
  gapless_update fun activation => gives_map.mpr fun made performed =>
    (World.performs_perform operands activation.machine activation.frame op made
      performed).advances

theorem gapless_define (name : Name) (declarations : List Declaration) (doc : Option String)
    (body : Expr) (defaults : List Value) :
    Gapless Activation.world (Activation.define name declarations doc body defaults) :=
  gapless_onMachine <| gapless_machine_update fun world =>
    world.advances_defineFunction name (Declaration.parameters declarations defaults) doc body

theorem gapless_bindError (binding : Option Name) (error : Error) :
    Gapless Activation.world (Activation.bindError binding error) := by
  unfold Activation.bindError
  cases binding with
  | none => exact gapless_pure ()
  | some name =>
      refine gapless_update fun activation => gives_ok.mpr (.stays ?_)
      exact World.stays_mk.mpr (activation.world.heap.retains_newError error)

theorem gapless_method (calls : ∀ callee arguments, Gapless Machine.world (call callee arguments))
    (receiver : Value) (name : Name) (arguments : Arguments) :
    Gapless Machine.world (call.method receiver name arguments) :=
  gapless_bind (gapless_inspect _) fun found => calls found arguments

theorem gapless_fast (calls : ∀ callee arguments, Gapless Machine.world (call callee arguments))
    (name : Name) (operands : List Value) : Gapless Machine.world (call.fast name operands) := by
  cases operands with
  | nil => exact gapless_inspect _
  | cons first rest => exact gapless_bind (gapless_inspect _) fun found => calls found _

theorem gapless_caller_perform
    (calls : ∀ callee arguments, Gapless Machine.world (call callee arguments))
    (form : CallForm) (operands : List Value) :
    Gapless Machine.world (call.perform form operands) := by
  cases form with
  | fast name => exact gapless_fast calls name operands
  | value keywords =>
      cases operands with
      | nil => exact gapless_inspect _
      | cons callee rest => exact calls callee _
  | method name keywords =>
      cases operands with
      | nil => exact gapless_inspect _
      | cons receiver rest => exact gapless_method calls receiver name _

mutual

theorem gapless_eval (calls : ∀ callee arguments, Gapless Machine.world (call callee arguments)) :
    ∀ expr : Expr, Gapless Activation.world (expr.eval call)
  | .literal written => gapless_pure written.value
  | .sequence items => gapless_evalLast calls items .none
  | .branch condition yes no => by
      refine gapless_bind (gapless_eval calls condition) fun value =>
        gapless_bind (gapless_inspect _) fun holds => ?_
      cases holds with
      | true => exact gapless_eval calls yes
      | false => exact gapless_eval calls no
  | .loop count body =>
      gapless_bind (gapless_repeated count (gapless_eval calls body)) fun _ => gapless_pure _
  | .call form operands =>
      gapless_bind (gapless_evalAll calls operands) fun values =>
        gapless_onMachine (gapless_caller_perform calls form values)
  | .apply operation operands =>
      gapless_bind (gapless_evalAll calls operands) fun values => gapless_perform operation values
  | .define name declarations doc body defaults =>
      gapless_bind (gapless_evalAll calls defaults) fun values =>
        gapless_define name declarations doc body values
  | .guarded forms binding body handlers =>
      gapless_bind (gapless_inspect _) fun _ =>
        gapless_guarded (gapless_eval calls body) fun index error =>
          gapless_bind (gapless_bindError binding error) fun _ =>
            gapless_evalAt calls handlers index

theorem gapless_evalLast
    (calls : ∀ callee arguments, Gapless Machine.world (call callee arguments)) :
    ∀ (items : List Expr) (last : Value),
      Gapless Activation.world (Expr.evalLast call items last)
  | [], last => gapless_pure last
  | item :: rest, _ =>
      gapless_bind (gapless_eval calls item) fun value => gapless_evalLast calls rest value

theorem gapless_evalAll
    (calls : ∀ callee arguments, Gapless Machine.world (call callee arguments)) :
    ∀ items : List Expr, Gapless Activation.world (Expr.evalAll call items)
  | [] => gapless_pure []
  | item :: rest =>
      gapless_bind (gapless_eval calls item) fun _ =>
        gapless_bind (gapless_evalAll calls rest) fun _ => gapless_pure _

theorem gapless_evalAt
    (calls : ∀ callee arguments, Gapless Machine.world (call callee arguments)) :
    ∀ (items : List Expr) (index : Nat),
      Gapless Activation.world (Expr.evalAt call items index)
  | [], _ => gapless_pure Value.none
  | item :: _, 0 => gapless_eval calls item
  | _ :: rest, index + 1 => gapless_evalAt calls rest index

end

end Expressions

/-! ## Calls -/

section Calls

variable {call : Caller}
  (calls : ∀ callee arguments, Gapless Machine.world (call callee arguments))

include calls

theorem gapless_runBody (function : FunctionDef) (arguments : Arguments) :
    Gapless Machine.world (Machine.runBody call function arguments) :=
  gapless_bind (gapless_keep fun world => world.stays_bindArguments function arguments)
    fun _ => gapless_bind (gapless_inspect _) fun body =>
      gapless_inFrame _ (gapless_eval calls body)

theorem gapless_total (start : Value) (items : List Value) :
    Gapless Machine.world (Machine.total call start items) := by
  induction items generalizing start with
  | nil => exact gapless_pure start
  | cons item rest ih => exact gapless_bind (gapless_fast calls "__add__" [start, item]) ih

theorem gapless_sum (sequence start : Value) :
    Gapless Machine.world (Machine.sum call sequence start) :=
  gapless_bind (gapless_inspect _) fun items => gapless_total calls start items

theorem gapless_length (value : Value) : Gapless Machine.world (Machine.length call value) := by
  unfold Machine.length
  split
  · exact gapless_pure _
  · exact gapless_pure _
  · refine gapless_bind (gapless_method calls value "__len__" {}) fun result => ?_
    split
    · exact gapless_pure _
    · exact gapless_inspect _

theorem gapless_runNative (builtin : Builtin) (arguments : List Value) :
    Gapless Machine.world (Machine.runNative call builtin arguments) := by
  unfold Machine.runNative
  split
  · exact gapless_length calls _
  · exact gapless_inspect _
  · exact gapless_sum calls _ _
  · exact gapless_sum calls _ _
  · exact gapless_inspect _
  · exact gapless_keep fun world => world.stays_runSimple _ _

theorem gapless_construct (type : TypeId) (arguments : Arguments) :
    Gapless Machine.world (Machine.construct call type arguments) := by
  refine gapless_bind (gapless_inspect _) fun machine => ?_
  split
  · refine gapless_keep fun world => ?_
    split
    · exact gives_error _
    · exact gives_ok.mpr (by simp)
  · split
    · exact gapless_keep fun world => by simp [World.stays_convert]
    · refine gapless_bind (gapless_keep fun world => gives_ok.mpr (by simp)) fun value =>
        gapless_bind (gapless_inspect _) fun init => ?_
      cases init with
      | some init => exact gapless_bind (calls _ _) fun _ => gapless_pure _
      | none => exact gapless_pure _

theorem gapless_callUnbound (callee : Value) (arguments : Arguments) :
    Gapless Machine.world (Machine.callUnbound call callee arguments) := by
  unfold Machine.callUnbound
  split
  · exact gapless_bind (gapless_inspect _) fun function =>
      gapless_within (gapless_runBody calls function arguments)
  · exact gapless_bind (gapless_inspect _) fun builtin => gapless_runNative calls builtin _
  · exact gapless_construct calls _ arguments
  · exact gapless_inspect _

end Calls

/-- Every call goes on from world to world, however deep calls may be nested. -/
theorem gapless_call (depth : Nat) (callee : Value) (arguments : Arguments) :
    Gapless Machine.world (Machine.call depth callee arguments) := by
  induction depth generalizing callee arguments with
  | zero => exact gapless_exhausted
  | succ depth ih => exact gapless_callUnbound ih _ _

end Run

end ScriptCore
