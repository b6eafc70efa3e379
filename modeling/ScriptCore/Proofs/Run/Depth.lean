import ScriptCore.Call

/-!
# How deep calls may be nested

The number of nested calls that a call may make decides only whether it comes to
an end.  A call that ends with some number of them does the same with every
larger number.
-/

namespace ScriptCore

namespace Run

/-- What the first computation does without running out of fuel, the second one does too. -/
def Deepens {σ α : Type} (small large : Computation σ α) : Prop :=
  ∀ s, (small.run s).1 ≠ .outOfFuel → large.run s = small.run s ∧ large.trail s = small.trail s

section Closure

variable {σ τ α β : Type} {small large : Computation σ α}

theorem Deepens.refl (body : Computation σ α) : Deepens body body :=
  fun _ _ => ⟨rfl, rfl⟩

theorem deepens_exhausted (large : Computation σ α) : Deepens .exhausted large :=
  fun _ fueled => absurd rfl fueled

theorem Deepens.bind {next wide : α → Computation σ β} (first : Deepens small large)
    (second : ∀ a, Deepens (next a) (wide a)) : Deepens (small >>= next) (large >>= wide) := by
  intro s fueled
  change ((Computation.bind small next).run s).1 ≠ _ at fueled
  change (Computation.bind large wide).run s = (Computation.bind small next).run s ∧
    (Computation.bind large wide).trail s = (Computation.bind small next).trail s
  have before := first s
  simp only [Computation.bind] at fueled ⊢
  cases ended : small.run s with
  | mk outcome middle =>
      rw [ended] at before fueled
      cases outcome with
      | value a =>
          obtain ⟨run, trail⟩ := before (by simp)
          obtain ⟨after, afterTrail⟩ := second a middle fueled
          rw [run, trail]
          simp only [after, afterTrail, and_self]
      | raised error =>
          obtain ⟨run, trail⟩ := before (by simp)
          rw [run, trail]
          exact ⟨rfl, rfl⟩
      | broken defect =>
          obtain ⟨run, trail⟩ := before (by simp)
          rw [run, trail]
          exact ⟨rfl, rfl⟩
      | outOfFuel => exact absurd rfl fueled

theorem Deepens.result (body : Deepens small large) : Deepens small.result large.result := by
  intro s fueled
  have before : (small.run s).1 ≠ .outOfFuel := fun out =>
    fueled (congrArg Prod.fst (Computation.run_result_of_outOfFuel (Prod.ext out rfl)))
  obtain ⟨run, trail⟩ := body s before
  simp only [Computation.result, run, trail, and_self]

theorem Deepens.onPart {part : τ → σ} {put : τ → σ → τ} (body : Deepens small large) :
    Deepens (.onPart part put small) (.onPart part put large) := by
  intro s fueled
  obtain ⟨run, trail⟩ := body (part s) fueled
  simp only [Computation.onPart, run, trail, and_self]

end Closure

/-! ## Expressions -/

section Expressions

variable {call wide : Caller}

theorem deepens_within {name : Name} {small large : Computation Machine Value}
    (body : Deepens small large) :
    Deepens (Machine.within name small) (Machine.within name large) :=
  .bind (.refl _) fun _ => .bind body.result fun _ => .refl _

theorem deepens_handle {small large : Computation Activation Value} (region : Region) (index : Nat)
    (error : Error) (handler : Deepens small large) :
    Deepens (Activation.handle region index error small)
      (Activation.handle region index error large) :=
  .bind (.refl _) fun _ => .bind handler.result fun _ => .refl _

theorem deepens_guarded {clauses : List Clause} {small large : Computation Activation Value}
    {handlers wideHandlers : Nat → Error → Computation Activation Value}
    (body : Deepens small large)
    (guards : ∀ index error, Deepens (handlers index error) (wideHandlers index error)) :
    Deepens (Activation.guarded clauses small handlers)
      (Activation.guarded clauses large wideHandlers) := by
  refine .bind body.result fun result => ?_
  cases result with
  | ok value => exact .refl _
  | error error =>
      refine .bind (.refl _) fun _ => .bind (.refl _) fun activation => .bind (.refl _) ?_
      rintro ⟨route, region⟩
      cases route with
      | handle index => exact deepens_handle region index error (guards index error)
      | propagate => exact .refl _

theorem deepens_repeated {α : Type} {small large : Computation Activation α} (count : Nat)
    (body : Deepens small large) :
    Deepens (Computation.repeated count small) (Computation.repeated count large) := by
  induction count with
  | zero => exact .refl _
  | succ count ih => exact .bind body fun _ => ih

theorem deepens_perform
    (calls : ∀ callee arguments, Deepens (call callee arguments) (wide callee arguments))
    (form : CallForm) (operands : List Value) :
    Deepens (call.perform form operands) (wide.perform form operands) := by
  cases operands with
  | nil =>
      cases form with
      | fast name => exact .refl _
      | value keywords => exact .refl _
      | method name keywords => exact .refl _
  | cons first rest =>
      cases form with
      | value keywords => exact calls first _
      | method name keywords => exact .bind (.refl _) fun found => calls found _
      | fast name => exact .bind (.refl _) fun found => calls found _

mutual

theorem deepens_eval
    (calls : ∀ callee arguments, Deepens (call callee arguments) (wide callee arguments)) :
    ∀ expr : Expr, Deepens (expr.eval call) (expr.eval wide)
  | .literal written => .refl _
  | .sequence items => deepens_evalLast calls items .none
  | .branch condition yes no => by
      refine .bind (deepens_eval calls condition) fun value => .bind (.refl _) fun holds => ?_
      cases holds with
      | true => exact deepens_eval calls yes
      | false => exact deepens_eval calls no
  | .loop count body =>
      .bind (deepens_repeated count (deepens_eval calls body)) fun _ => .refl _
  | .call form operands =>
      .bind (deepens_evalAll calls operands) fun values =>
        .onPart (deepens_perform calls form values)
  | .apply _ operands => .bind (deepens_evalAll calls operands) fun _ => .refl _
  | .define _ _ _ _ defaults => .bind (deepens_evalAll calls defaults) fun _ => .refl _
  | .guarded forms binding body handlers =>
      .bind (.refl _) fun _ => deepens_guarded (deepens_eval calls body) fun index _ =>
        .bind (.refl _) fun _ => deepens_evalAt calls handlers index

theorem deepens_evalLast
    (calls : ∀ callee arguments, Deepens (call callee arguments) (wide callee arguments)) :
    ∀ (items : List Expr) (last : Value),
      Deepens (Expr.evalLast call items last) (Expr.evalLast wide items last)
  | [], _ => .refl _
  | item :: rest, _ =>
      .bind (deepens_eval calls item) fun value => deepens_evalLast calls rest value

theorem deepens_evalAll
    (calls : ∀ callee arguments, Deepens (call callee arguments) (wide callee arguments)) :
    ∀ items : List Expr, Deepens (Expr.evalAll call items) (Expr.evalAll wide items)
  | [] => .refl _
  | item :: rest =>
      .bind (deepens_eval calls item) fun _ =>
        .bind (deepens_evalAll calls rest) fun _ => .refl _

theorem deepens_evalAt
    (calls : ∀ callee arguments, Deepens (call callee arguments) (wide callee arguments)) :
    ∀ (items : List Expr) (index : Nat),
      Deepens (Expr.evalAt call items index) (Expr.evalAt wide items index)
  | [], _ => .refl _
  | item :: _, 0 => deepens_eval calls item
  | _ :: rest, index + 1 => deepens_evalAt calls rest index

end

end Expressions

/-! ## Calls -/

section Calls

variable {call wide : Caller}
  (calls : ∀ callee arguments, Deepens (call callee arguments) (wide callee arguments))

include calls

theorem deepens_runBody (function : FunctionDef) (arguments : Arguments) :
    Deepens (Machine.runBody call function arguments) (Machine.runBody wide function arguments) :=
  .bind (.refl _) fun _ => .bind (.refl _) fun body => .onPart (deepens_eval calls body)

theorem deepens_length (value : Value) :
    Deepens (Machine.length call value) (Machine.length wide value) := by
  unfold Machine.length
  split
  · exact .refl _
  · exact .refl _
  · exact .bind (.bind (.refl _) fun found => calls found _) fun _ => .refl _

theorem deepens_total (start : Value) (items : List Value) :
    Deepens (Machine.total call start items) (Machine.total wide start items) := by
  induction items generalizing start with
  | nil => exact .refl _
  | cons item rest ih => exact .bind (.bind (.refl _) fun found => calls found _) ih

theorem deepens_runNative (builtin : Builtin) (arguments : List Value) :
    Deepens (Machine.runNative call builtin arguments)
      (Machine.runNative wide builtin arguments) := by
  unfold Machine.runNative
  split
  · exact deepens_length calls _
  · exact .refl _
  · exact .bind (.refl _) fun items => deepens_total calls _ items
  · exact .bind (.refl _) fun items => deepens_total calls _ items
  · exact .refl _
  · exact .refl _

theorem deepens_construct (type : TypeId) (arguments : Arguments) :
    Deepens (Machine.construct call type arguments) (Machine.construct wide type arguments) := by
  refine .bind (.refl _) fun machine => ?_
  split
  · exact .refl _
  · split
    · exact .refl _
    · refine .bind (.refl _) fun value => .bind (.refl _) fun init => ?_
      cases init with
      | some init => exact .bind (calls _ _) fun _ => .refl _
      | none => exact .refl _

theorem deepens_callUnbound (callee : Value) (arguments : Arguments) :
    Deepens (Machine.callUnbound call callee arguments)
      (Machine.callUnbound wide callee arguments) := by
  unfold Machine.callUnbound
  split
  · exact .bind (.refl _) fun function => deepens_within (deepens_runBody calls function arguments)
  · exact .bind (.refl _) fun builtin => deepens_runNative calls builtin _
  · exact deepens_construct calls _ arguments
  · exact .refl _

end Calls

/-- A call that comes to an end does the same when calls may be nested deeper. -/
theorem deepens_call {depth deeper : Nat} (more : depth ≤ deeper) (callee : Value)
    (arguments : Arguments) :
    Deepens (Machine.call depth callee arguments) (Machine.call deeper callee arguments) := by
  induction depth generalizing deeper callee arguments with
  | zero => exact deepens_exhausted _
  | succ depth ih =>
      cases deeper with
      | zero => cases more
      | succ deeper => exact deepens_callUnbound (ih (Nat.le_of_succ_le_succ more)) _ _

end Run

end ScriptCore
