import ScriptCore.Proofs.Run.Composed
import ScriptCore.Session

/-!
# The interpreter is composed

Expressions, native functions and constructors reach the call stack and the
handled errors through calls and try regions only.
-/

namespace ScriptCore.Run

theorem exists_of_map_eq_ok {α β : Type} {result : Except Error α} {f : α → β} {b : β}
    (mapped : result.map f = .ok b) : ∃ a, result = .ok a ∧ f a = b := by
  cases result with
  | ok a => exact ⟨a, rfl, Except.ok.inj mapped⟩
  | error error => cases mapped

/-! ## Expressions -/

section Expressions

variable {call : Caller}

theorem composed_onMachine {α : Type} {inner : Computation Machine α}
    (composed : Composed id inner) :
    Composed Activation.machine (Activation.onMachine inner) :=
  .onPart (fun _ => rfl) (fun _ _ => rfl) composed

/-- A change is composed if whatever comes of it keeps the calls and the handled errors. -/
theorem composed_update_map {σ α β : Type} {view : σ → Machine} {act : σ → Except Error β}
    {finish : σ → β → α × σ} (calls : ∀ s b, (view (finish s b).2).calls = (view s).calls)
    (handling : ∀ s b, (view (finish s b).2).handling = (view s).handling) :
    Composed view (.update fun s => (act s).map (finish s)) := by
  refine .update ?_ ?_
  · intro s a t changed
    obtain ⟨b, _, same⟩ := exists_of_map_eq_ok changed
    have kept := calls s b
    rwa [same] at kept
  · intro s a t changed
    obtain ⟨b, _, same⟩ := exists_of_map_eq_ok changed
    have kept := handling s b
    rwa [same] at kept

theorem composed_machine_update {α : Type} (step : World → Except Error (α × World)) :
    Composed id (Machine.update step) :=
  composed_update_map (fun _ _ => rfl) fun _ _ => rfl

theorem composed_perform (op : Operation) (operands : List Value) :
    Composed Activation.machine (Activation.perform op operands) :=
  composed_update_map (fun _ _ => rfl) fun _ _ => rfl

theorem composed_define (name : Name) (declarations : List Declaration) (doc : Option String)
    (body : Expr) (defaults : List Value) :
    Composed Activation.machine (Activation.define name declarations doc body defaults) :=
  composed_onMachine <| composed_machine_update fun world =>
    world.defineFunction name (Declaration.parameters declarations defaults) doc body

theorem composed_bindError (binding : Option Name) (error : Error) :
    Composed Activation.machine (Activation.bindError binding error) := by
  unfold Activation.bindError
  cases binding with
  | none => exact .pure ()
  | some name =>
      refine .update ?_ ?_
      all_goals
        intro activation a next stepped
        cases stepped
        rfl

theorem composed_repeated {α : Type} {body : Computation Activation α} (count : Nat)
    (inner : Composed Activation.machine body) :
    Composed Activation.machine (Computation.repeated count body) := by
  induction count with
  | zero => exact .pure ()
  | succ count ih => exact .bind inner fun _ => ih

/-- Calls that are composed make method calls that are composed. -/
theorem composed_caller_perform (calls : ∀ callee arguments, Composed id (call callee arguments))
    (form : CallForm) (operands : List Value) :
    Composed id (call.perform form operands) := by
  cases operands with
  | nil =>
      cases form with
      | fast name => exact .inspect _
      | value keywords => exact .inspect _
      | method name keywords => exact .inspect _
  | cons first rest =>
      cases form with
      | value keywords => exact calls first _
      | method name keywords => exact .bind (.inspect _) fun found => calls found _
      | fast name => exact .bind (.inspect _) fun found => calls found _

mutual

theorem composed_eval (calls : ∀ callee arguments, Composed id (call callee arguments)) :
    ∀ expr : Expr, Composed Activation.machine (expr.eval call)
  | .literal written => .pure written.value
  | .sequence items => composed_evalLast calls items .none
  | .branch condition yes no => by
      refine .bind (composed_eval calls condition) fun value => .bind (.inspect _) fun holds => ?_
      cases holds with
      | true => exact composed_eval calls yes
      | false => exact composed_eval calls no
  | .loop count body =>
      .bind (composed_repeated count (composed_eval calls body)) fun _ => .pure _
  | .call form operands =>
      .bind (composed_evalAll calls operands) fun values =>
        composed_onMachine (composed_caller_perform calls form values)
  | .apply operation operands =>
      .bind (composed_evalAll calls operands) fun values => composed_perform operation values
  | .define name declarations doc body defaults =>
      .bind (composed_evalAll calls defaults) fun values =>
        composed_define name declarations doc body values
  | .guarded forms binding body handlers =>
      .bind (.inspect _) fun _ => .guarded (composed_eval calls body) fun index error =>
        .bind (composed_bindError binding error) fun _ => composed_evalAt calls handlers index

theorem composed_evalLast (calls : ∀ callee arguments, Composed id (call callee arguments)) :
    ∀ (items : List Expr) (last : Value),
      Composed Activation.machine (Expr.evalLast call items last)
  | [], last => .pure last
  | item :: rest, _ =>
      .bind (composed_eval calls item) fun value => composed_evalLast calls rest value

theorem composed_evalAll (calls : ∀ callee arguments, Composed id (call callee arguments)) :
    ∀ items : List Expr, Composed Activation.machine (Expr.evalAll call items)
  | [] => .pure []
  | item :: rest =>
      .bind (composed_eval calls item) fun _ =>
        .bind (composed_evalAll calls rest) fun _ => .pure _

theorem composed_evalAt (calls : ∀ callee arguments, Composed id (call callee arguments)) :
    ∀ (items : List Expr) (index : Nat),
      Composed Activation.machine (Expr.evalAt call items index)
  | [], _ => .pure Value.none
  | item :: _, 0 => composed_eval calls item
  | _ :: rest, index + 1 => composed_evalAt calls rest index

end

end Expressions

/-! ## Calls -/

section Calls

variable {call : Caller} (calls : ∀ callee arguments, Composed id (call callee arguments))

include calls

theorem composed_runBody (function : FunctionDef) (arguments : Arguments) :
    Composed id (Machine.runBody call function arguments) :=
  .bind (composed_machine_update _) fun _ => .bind (.inspect _) fun body =>
    .onPart (fun _ => rfl) (fun _ _ => rfl) (composed_eval calls body)

theorem composed_total (start : Value) (items : List Value) :
    Composed id (Machine.total call start items) := by
  induction items generalizing start with
  | nil => exact .pure start
  | cons item rest ih => exact .bind (.bind (.inspect _) fun found => calls found _) ih

theorem composed_sum (sequence start : Value) : Composed id (Machine.sum call sequence start) :=
  .bind (.inspect _) fun items => composed_total calls start items

theorem composed_length (value : Value) : Composed id (Machine.length call value) := by
  unfold Machine.length
  split
  · exact .pure _
  · exact .pure _
  · refine .bind (.bind (.inspect _) fun found => calls found _) fun result => ?_
    split
    · exact .pure _
    · exact .inspect _

theorem composed_runNative (builtin : Builtin) (arguments : List Value) :
    Composed id (Machine.runNative call builtin arguments) := by
  unfold Machine.runNative
  split
  · exact composed_length calls _
  · exact .inspect _
  · exact composed_sum calls _ _
  · exact composed_sum calls _ _
  · exact .inspect _
  · exact composed_machine_update _

theorem composed_construct (type : TypeId) (arguments : Arguments) :
    Composed id (Machine.construct call type arguments) := by
  refine .bind (.inspect _) fun machine => ?_
  split
  · exact composed_machine_update _
  · split
    · exact composed_machine_update _
    · refine .bind (composed_machine_update _) fun value => .bind (.inspect _) fun init => ?_
      split
      · exact .bind (calls _ _) fun _ => .pure _
      · exact .pure _

theorem composed_callUnbound (callee : Value) (arguments : Arguments) :
    Composed id (Machine.callUnbound call callee arguments) := by
  unfold Machine.callUnbound
  split
  · exact .bind (.inspect _) fun function => .within (composed_runBody calls function arguments)
  · exact .bind (.inspect _) fun builtin => composed_runNative calls builtin _
  · exact composed_construct calls _ arguments
  · exact .inspect _

end Calls

/-- Calls are composed, however deep they may be nested. -/
theorem composed_call (depth : Nat) (callee : Value) (arguments : Arguments) :
    Composed id (Machine.call depth callee arguments) := by
  induction depth generalizing callee arguments with
  | zero => exact .exhausted
  | succ depth ih => exact composed_callUnbound ih _ _

/-- A function that does nothing but raise an error. -/
def failing : Computation Machine Value :=
  Machine.within "f" (.raise (.ofCause .noActiveException))

theorem composed_failing : Composed id failing := .within (.inspect _)

end ScriptCore.Run
