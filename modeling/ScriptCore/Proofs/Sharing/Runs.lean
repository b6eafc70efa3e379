import ScriptCore.Proofs.Errors.Runs
import ScriptCore.Proofs.Sharing.Computations

/-!
# Blind runs

Whatever is called and evaluated is blind to what is concealed, as long as it is given
nothing that leads there.
-/

namespace ScriptCore

variable {concealed : Identity → Bool} {known : Heap}

/-! ## Try regions -/

section Regions

variable {error : Error} {handler : Computation Activation Value}

theorem blind_enterHandler (index : Nat) (held : error.InView concealed known) :
    (Activation.enterHandler index error).Blind concealed known fun _ _ => True := by
  refine blind_mark fun activation closed keeps =>
    ⟨⟨⟨closed.machine.world, ?_⟩, closed.locals⟩, rfl, rfl⟩
  exact List.forall_mem_cons.mpr ⟨held.mono keeps, closed.machine.handling⟩

theorem blind_exitHandler :
    Activation.exitHandler.Blind concealed known fun _ _ => True := by
  refine blind_mark fun activation closed _ =>
    ⟨⟨⟨closed.machine.world, ?_⟩, closed.locals⟩, rfl, rfl⟩
  exact fun error member => closed.machine.handling error (List.mem_of_mem_tail member)

theorem blind_handle (region : Region) (index : Nat) (held : error.InView concealed known)
    (blind : handler.Blind concealed known (Value.InView concealed)) :
    (Activation.handle region index error handler).Blind concealed known
      (Value.InView concealed) := by
  refine (blind_enterHandler index held).bind fun _ _ entered _ => ?_
  refine (blind.weaken entered).result.bind fun _ result _ shows' => ?_
  refine blind_exitHandler.bind fun _ _ exited _ => ?_
  refine blind_require.bind fun _ _ keeps _ => blind_conclude fun _ further => ?_
  exact ((shows'.mono exited).mono keeps).mono further

theorem blind_dispatch {clauses : List Clause} (held : error.InView concealed known)
    {handlers : Nat → Error → Computation Activation Value}
    (blind : ∀ later index, known.Keeps later →
      (handlers index error).Blind concealed later (Value.InView concealed)) :
    (Activation.dispatch clauses error handlers).Blind concealed known
      (Value.InView concealed) := by
  have asked : (Computation.mark (.select error) id : Computation Activation Unit).Blind concealed
      known fun _ _ => True :=
    blind_mark fun _ closed _ => ⟨closed, rfl, rfl⟩
  refine asked.bind fun _ _ asking _ => ?_
  refine Computation.Blind.get (fun _ => rfl) fun activation _ _ => ?_
  refine blind_require.bind fun last chosen choosing _ => ?_
  have keeps := asking.trans choosing
  obtain ⟨route, region⟩ := chosen
  cases route with
  | handle index => exact blind_handle region index (held.mono keeps) (blind last index keeps)
  | propagate => exact blind_conclude fun _ further => (held.mono keeps).mono further

theorem blind_guarded {clauses : List Clause} {body : Computation Activation Value}
    {handlers : Nat → Error → Computation Activation Value}
    (blind : body.Blind concealed known (Value.InView concealed))
    (handled : ∀ later index error, known.Keeps later → error.InView concealed later →
      (handlers index error).Blind concealed later (Value.InView concealed)) :
    (Activation.guarded clauses body handlers).Blind concealed known (Value.InView concealed) := by
  refine blind.result.bind fun later result keeps shows' => ?_
  cases result with
  | ok value =>
      refine blind_require.bind fun _ _ further _ => blind_pure fun _ last => ?_
      exact (Value.InView.mono further shows').mono last
  | error error =>
      exact blind_dispatch shows' fun last index further =>
        handled last index error (keeps.trans further) (Value.InView.mono further shows')

theorem blind_bindError (binding : Option Name) (held : error.InView concealed known) :
    (Activation.bindError binding error).Blind concealed known fun _ _ => True := by
  unfold Activation.bindError
  cases binding with
  | none => exact blind_pure fun _ _ => trivial
  | some name =>
      refine blind_update (fun _ _ _ => rfl)
        (fun activation closed keeps _ after stepped => ?_) nofun
      cases stepped
      have fresh := Heap.Keeps.fresh activation.machine.world.heap
      have made := closed.machine.world.withHeap fresh closed.machine.world.heap.fresh
      have before := closed.locals.mono fun _ seen => seen.mono fresh
      obtain ⟨locals, world⟩ := made.storeName before name
        (inView_toValue.mpr ((held.mono keeps).mono fresh))
      have machine : Machine.Closed concealed _ := closed.machine.withWorld fresh world
      exact ⟨⟨machine, locals⟩, fresh, trivial⟩

end Regions

/-! ## Expressions -/

/-- Calls are blind, whatever is called. -/
def Caller.Blind (concealed : Identity → Bool) (call : Caller) : Prop :=
  ∀ {known : Heap} {callee : Value} {arguments : Arguments},
    callee.InView concealed known → arguments.InView concealed known →
      (call callee arguments).Blind concealed known (Value.InView concealed)

section Expressions

variable {call : Caller}

theorem blind_define (name : Name) (declarations : List Declaration) (doc : Option String)
    (body : Expr) {defaults : List Value}
    (held : ∀ value ∈ defaults, value.InView concealed known) :
    (Activation.define name declarations doc body defaults).Blind concealed known
      (Value.InView concealed) :=
  blind_onMachine <| blind_step fun _ closed keeps =>
    closed.defineFunction name doc body (Declaration.forall_shared inView_none
      fun value member => (held value member).mono keeps)

theorem blind_isTrue {value : Value} (held : value.InView concealed known) :
    (Activation.isTrue value).Blind concealed known fun _ _ => True :=
  blind_inspect (fun _ _ keeps => congrArg Except.ok (Heap.isTruthy_veil (held.mono keeps)))
    fun _ _ _ => trivial

theorem TypeRef.shows_resolve {heap : Heap} (types : Registry) (ref : TypeRef) :
    Shows concealed heap (fun _ _ => True) (ref.resolve types) := by
  unfold TypeRef.resolve
  split
  · split
    · exact trivial
    · exact Error.inView_ofCause _
  · exact trivial

theorem blind_clauses (forms : List ClauseForm) :
    (Activation.clauses forms).Blind concealed known fun _ _ => True := by
  have refs {heap : Heap} (types : Registry) (refs : List TypeRef) :
      Shows concealed heap (fun _ _ => True) (ClauseForm.resolveTypes types refs) := by
    induction refs with
    | nil => exact trivial
    | cons ref rest ih => exact (ref.shows_resolve types).bind fun _ _ => ih.bind fun _ _ => trivial
  refine blind_inspect (fun _ _ _ => rfl) fun activation _ _ => ?_
  induction forms with
  | nil => exact trivial
  | cons form rest ih =>
      have resolved : Shows concealed (Stage.heap activation) (fun _ _ => True)
          (form.resolve activation.machine.world.types) := by
        cases form with
        | types refs' => exact Shows.map (refs _ refs') fun _ _ => trivial
        | unresolved name => exact trivial
        | bare => exact trivial
      exact resolved.bind fun _ _ => ih.bind fun _ _ => trivial

theorem blind_method (calls : call.Blind concealed) {receiver : Value} {arguments : Arguments}
    (name : Name) (held : receiver.InView concealed known)
    (given : arguments.InView concealed known) :
    (call.method receiver name arguments).Blind concealed known (Value.InView concealed) :=
  (blind_look (fun world => world.getAttribute receiver name) fun _ closed keeps =>
    closed.getAttribute (held.mono keeps)).bind fun _ _ keeps method =>
      calls method (given.mono keeps)

/-- An error that the machine makes of a cause quotes nothing. -/
theorem blind_refuses {α : Type} {gives : Heap → α → Prop} (cause : World → Cause)
    (same : ∀ world : World, cause (world.veil concealed) = cause world) :
    (Computation.inspect fun machine : Machine =>
      (.error (.ofCause (cause machine.world)) : Except Error α)).Blind concealed known gives :=
  blind_look (fun world => .error (.ofCause (cause world))) fun world _ _ => .refuses (same world)

theorem blind_fast (calls : call.Blind concealed) {operands : List Value} (name : Name)
    (held : ∀ operand ∈ operands, operand.InView concealed known) :
    (call.fast name operands).Blind concealed known (Value.InView concealed) := by
  cases operands with
  | nil => exact blind_refuses (fun _ => .nativeArity name 1 0) fun _ => rfl
  | cons first rest =>
      refine Computation.Blind.look (Value.InView concealed) (fun _ _ _ => rfl)
        (fun machine closed _ => ?_) fun _ _ keeps method =>
          calls method (Arguments.InView.mono keeps (.ofList held))
      split
      · next resolved => exact Machine.Closed.world closed |>.resolve resolved
      · exact Error.inView_ofCause _

theorem blind_caller_perform (calls : call.Blind concealed) (form : CallForm)
    {operands : List Value} (held : ∀ operand ∈ operands, operand.InView concealed known) :
    (call.perform form operands).Blind concealed known (Value.InView concealed) := by
  cases form with
  | fast name =>
      cases operands <;> exact blind_fast calls name held
  | value keywords =>
      cases operands with
      | nil => exact blind_refuses (fun _ => _) fun _ => rfl
      | cons callee rest =>
          rw [List.forall_mem_cons] at held
          exact calls held.1 (Caller.all_arguments keywords held.2)
  | method name keywords =>
      cases operands with
      | nil => exact blind_refuses (fun _ => _) fun _ => rfl
      | cons receiver rest =>
          rw [List.forall_mem_cons] at held
          exact blind_method calls name held.1 (Caller.all_arguments keywords held.2)

theorem blind_perform (op : Operation) {operands : List Value}
    (held : ∀ operand ∈ operands, operand.InView concealed known) :
    (Activation.perform op operands).Blind concealed known (Value.InView concealed) := by
  have performed (activation : Activation) (closed : activation.Closed concealed)
      (keeps : known.Keeps activation.machine.world.heap) :=
    closed.machine.perform closed.locals op fun operand member => (held operand member).mono keeps
  refine blind_update (fun activation closed keeps => ?_)
    (fun activation closed keeps value after made => ?_)
    fun activation closed keeps error refused => ?_
  · have same := (performed activation closed keeps).same
    change Except.map _ (op.perform { activation.machine with
      world := activation.machine.world.veil concealed } activation.frame operands) = _
    rw [same]
    cases op.perform activation.machine activation.frame operands <;> rfl
  · cases stepped : op.perform activation.machine activation.frame operands with
    | ok pair =>
        rw [stepped] at made
        cases made
        have yields := (performed activation closed keeps).value pair stepped
        exact ⟨⟨closed.machine.withWorld yields.step.keeps yields.step.world, yields.locals⟩,
          yields.step.keeps, yields.step.value⟩
    | error error =>
        rw [stepped] at made
        cases made
  · cases stepped : op.perform activation.machine activation.frame operands with
    | ok pair =>
        rw [stepped] at refused
        cases refused
    | error failed =>
        rw [stepped] at refused
        cases refused
        exact (performed activation closed keeps).error _ stepped

-- By recursion on the program; of the bodies it comes to only the blindness of calls is used.
mutual

theorem blind_eval {known : Heap} (calls : call.Blind concealed) :
    ∀ expr : Expr, (expr.eval call).Blind concealed known (Value.InView concealed)
  | .literal written => blind_pure fun _ _ => inView_literal written
  | .sequence items => blind_evalLast calls items inView_none
  | .branch condition yes no => by
      refine (blind_eval calls condition).bind fun _ value _ seen => ?_
      refine (blind_isTrue seen).bind fun _ holds _ _ => ?_
      cases holds with
      | true => exact blind_eval calls yes
      | false => exact blind_eval calls no
  | .loop count body =>
      ((blind_eval calls body).repeated count).bind fun _ _ _ _ =>
        blind_pure fun _ _ => inView_none
  | .call form operands =>
      (blind_evalAll calls operands).bind fun _ _ _ held =>
        blind_onMachine (blind_caller_perform calls form held)
  | .apply operation operands =>
      (blind_evalAll calls operands).bind fun _ _ _ held => blind_perform operation held
  | .define name declarations doc body defaults =>
      (blind_evalAll calls defaults).bind fun _ _ _ held =>
        blind_define name declarations doc body held
  | .guarded forms binding body handlers => by
      refine (blind_clauses forms).bind fun _ _ _ _ => ?_
      refine blind_guarded (blind_eval calls body) fun _ index error _ held => ?_
      exact (blind_bindError binding held).bind fun _ _ _ _ => blind_evalAt calls handlers index

theorem blind_evalLast {known : Heap} (calls : call.Blind concealed) :
    ∀ (items : List Expr) {last : Value}, last.InView concealed known →
      (Expr.evalLast call items last).Blind concealed known (Value.InView concealed)
  | [], _, held => blind_pure fun _ keeps => held.mono keeps
  | item :: rest, _, _ =>
      (blind_eval calls item).bind fun _ _ _ value => blind_evalLast calls rest value

theorem blind_evalAll {known : Heap} (calls : call.Blind concealed) :
    ∀ items : List Expr, (Expr.evalAll call items).Blind concealed known
      fun heap values => ∀ value ∈ values, value.InView concealed heap
  | [] => blind_pure fun _ _ => nofun
  | item :: rest => by
      refine (blind_eval calls item).bind fun _ value _ first => ?_
      refine (blind_evalAll calls rest).bind fun _ values keeps others => ?_
      refine blind_pure fun _ further => List.forall_mem_cons.mpr ⟨?_, fun other member => ?_⟩
      · exact (first.mono keeps).mono further
      · exact (others other member).mono further

theorem blind_evalAt {known : Heap} (calls : call.Blind concealed) :
    ∀ (items : List Expr) (index : Nat),
      (Expr.evalAt call items index).Blind concealed known (Value.InView concealed)
  | [], _ => blind_pure fun _ _ => inView_none
  | item :: _, 0 => blind_eval calls item
  | _ :: rest, index + 1 => blind_evalAt calls rest index

end

end Expressions

/-! ## Calls -/

section Calls

theorem inView_of_push {heap : Heap} {stack : CallStack} {name : Name} {error : Error}
    (refused : stack.push name = .error error) : error.InView concealed heap := by
  unfold CallStack.push at refused
  split at refused
  · split at refused
    · cases refused
    · cases refused
      exact Error.inView_ofCause _
  · cases refused

theorem blind_enter (name : Name) :
    (Machine.enter name).Blind concealed known fun _ _ => True := by
  intro machine closed _
  cases pushed : machine.calls.push name with
  | ok calls =>
      have pushedUnder : (machine.veil concealed).calls.push name = .ok calls := pushed
      obtain ⟨entered, trail⟩ := Machine.enter_of_ok pushed
      obtain ⟨enteredUnder, trailUnder⟩ := Machine.enter_of_ok pushedUnder
      have inside : Machine.Closed concealed { machine with calls } :=
        ⟨closed.world, closed.handling⟩
      refine ⟨?_, ?_, ?_, ?_, ?_, ?_, ?_⟩ <;> simp only [entered, trail]
      · exact enteredUnder
      · exact trailUnder
      · exact List.forall_mem_singleton.mpr ⟨inside, .refl _, .refl _⟩
      · exact List.pairwise_singleton _ _
      · exact inside
      · exact .refl _
      · exact trivial
  | error error =>
      have pushedUnder : (machine.veil concealed).calls.push name = .error error := pushed
      obtain ⟨refused, trail⟩ := Machine.enter_of_error pushed
      obtain ⟨refusedUnder, trailUnder⟩ := Machine.enter_of_error pushedUnder
      refine ⟨?_, ?_, ?_, ?_, ?_, ?_, ?_⟩ <;> simp only [refused, trail]
      · exact refusedUnder
      · exact trailUnder
      · exact List.forall_mem_cons.mpr ⟨shown_now closed, List.forall_mem_singleton.mpr
          (shown_now closed)⟩
      · exact List.pairwise_pair.mpr (.refl _)
      · exact closed
      · exact .refl _
      · exact inView_of_push pushed

theorem blind_leave (name : Name) :
    (Machine.leave name).Blind concealed known fun _ _ => True := by
  intro machine closed _
  cases popped : machine.calls.pop with
  | ok calls =>
      have poppedUnder : (machine.veil concealed).calls.pop = .ok calls := popped
      obtain ⟨left, trail⟩ := Machine.leave_of_ok name popped
      obtain ⟨leftUnder, trailUnder⟩ := Machine.leave_of_ok name poppedUnder
      have outside : Machine.Closed concealed { machine with calls } :=
        ⟨closed.world, closed.handling⟩
      refine ⟨?_, ?_, ?_, ?_, ?_, ?_, ?_⟩ <;> simp only [left, trail]
      · exact leftUnder
      · exact trailUnder
      · exact List.forall_mem_singleton.mpr ⟨outside, .refl _, .refl _⟩
      · exact List.pairwise_singleton _ _
      · exact outside
      · exact .refl _
      · exact trivial
  | error defect =>
      have poppedUnder : (Stage.veil concealed machine).calls.pop = .error defect := popped
      refine ⟨?_, ?_, ?_, ?_, ?_, ?_, ?_⟩ <;> simp only [Machine.leave, popped, poppedUnder]
      · rfl
      · rfl
      · exact List.forall_mem_nil _
      · exact .nil
      · exact closed
      · exact .refl _
      · exact trivial

theorem blind_within (name : Name) {body : Computation Machine Value}
    (blind : body.Blind concealed known (Value.InView concealed)) :
    (Machine.within name body).Blind concealed known (Value.InView concealed) := by
  refine (blind_enter name).bind fun _ _ entered _ => ?_
  refine (blind.weaken entered).result.bind fun _ result _ shows' => ?_
  refine (blind_leave name).bind fun _ _ left _ => blind_conclude fun _ further => ?_
  have kept := (shows'.mono left).mono further
  cases result with
  | ok value => exact kept
  | error error => exact kept

variable {call : Caller} {arguments : List Value}

theorem blind_length (calls : call.Blind concealed) {value : Value}
    (held : value.InView concealed known) :
    (Machine.length call value).Blind concealed known (Value.InView concealed) := by
  unfold Machine.length
  split
  · exact blind_pure fun _ _ => inView_ofNat _
  · exact blind_pure fun _ _ => inView_ofNat _
  · refine (blind_method calls "__len__" held .empty).bind fun _ result _ _ => ?_
    split
    · exact blind_pure fun _ _ => inView_int _
    · exact blind_refuses (fun world => .typeMismatch "int" (world.typeNameOf _)) fun _ => rfl

theorem blind_total (calls : call.Blind concealed) {start : Value} {items : List Value}
    (first : start.InView concealed known) (held : ∀ item ∈ items, item.InView concealed known) :
    (Machine.total call start items).Blind concealed known (Value.InView concealed) := by
  induction items generalizing known start with
  | nil => exact blind_pure fun _ keeps => first.mono keeps
  | cons item rest ih =>
      obtain ⟨second, others⟩ := List.forall_mem_cons.mp held
      have both := List.forall_mem_cons.mpr ⟨first, List.forall_mem_singleton.mpr second⟩
      refine (blind_fast calls "__add__" both).bind fun _ next keeps sum => ih sum ?_
      exact fun other member => (others other member).mono keeps

theorem blind_sum (calls : call.Blind concealed) {sequence start : Value}
    (held : sequence.InView concealed known) (first : start.InView concealed known) :
    (Machine.sum call sequence start).Blind concealed known (Value.InView concealed) := by
  have found (machine : Machine) (closed : machine.Closed concealed)
      (keeps : known.Keeps machine.world.heap) :=
    closed.world.sequenceOr (fun _ => "list") rfl (held.mono keeps)
  exact Computation.Blind.look (fun heap items => ∀ item ∈ items, item.InView concealed heap)
    (fun machine closed keeps => (found machine closed keeps).unveiled)
    (fun machine closed keeps => (found machine closed keeps).shows)
    fun _ _ keeps items => blind_total calls (first.mono keeps) items

theorem blind_runNative (calls : call.Blind concealed) (builtin : Builtin)
    (held : ∀ argument ∈ arguments, argument.InView concealed known) :
    (Machine.runNative call builtin arguments).Blind concealed known (Value.InView concealed) := by
  unfold Machine.runNative
  split
  · exact blind_length calls (held _ (by simp))
  · exact blind_refuses (fun _ => _) fun _ => rfl
  · exact blind_sum calls (held _ (by simp)) (inView_int _)
  · exact blind_sum calls (held _ (by simp)) (held _ (by simp))
  · exact blind_refuses (fun _ => _) fun _ => rfl
  · exact blind_step fun _ closed keeps => closed.runSimple _ fun argument member =>
      (held argument member).mono keeps

theorem blind_callNative (calls : call.Blind concealed) (native : Native) {given : Arguments}
    (held : given.InView concealed known) :
    (Machine.callNative call native given).Blind concealed known (Value.InView concealed) := by
  refine Computation.Blind.look (fun _ _ => True) (fun _ _ _ => rfl) (fun machine _ _ => ?_)
    fun _ builtin keeps _ => blind_runNative calls builtin fun value member =>
      (held.positional value member).mono keeps
  unfold Machine.nativeBody
  dsimp only
  split
  · exact Error.inView_ofCause _
  · split
    · exact Error.inView_ofCause _
    · split
      · exact trivial
      · exact Error.inView_ofCause _

/-! ## Types -/

theorem inView_errorPayload {heap : Heap}
    (held : ∀ argument ∈ arguments, argument.InView concealed heap) :
    (Machine.errorPayload arguments).InView concealed heap := by
  unfold Machine.errorPayload
  split
  · exact inView_none
  · exact held _ (by simp)
  · exact inView_tuple.mpr held

theorem blind_constructError (type : TypeId) {given : Arguments}
    (held : given.InView concealed known) :
    (Machine.constructError type given).Blind concealed known (Value.InView concealed) := by
  refine blind_step fun world closed keeps => ?_
  split
  · exact .refuses rfl
  · have seen := inView_errorPayload fun value member =>
      (held.positional value member).mono keeps
    exact closed.newError (Error.raised_veil closed.heap type seen) seen

theorem blind_constructInstance (calls : call.Blind concealed) (type : TypeId) {given : Arguments}
    (held : given.InView concealed known) :
    (Machine.constructInstance call type given).Blind concealed known (Value.InView concealed) := by
  have made : (Machine.update fun world =>
      .ok (world.allocate (world.heap.newInstance type))).Blind concealed known
        (Value.InView concealed) :=
    blind_step fun _ closed _ => closed.newObject type Payload.inView_plain
  have resolved {later : Heap} : (Computation.inspect fun machine : Machine =>
      .ok (machine.world.types.resolve type "__init__")).Blind concealed later
        fun heap (found : Option Value) => ∀ init ∈ found, init.InView concealed heap :=
    blind_inspect (fun _ _ _ => rfl) fun _ closed _ _ found =>
      (Machine.Closed.world closed).resolve found
  refine made.bind fun _ value making new => resolved.bind fun _ init resolving found => ?_
  have instance' := new.mono resolving
  cases init with
  | none => exact blind_pure fun _ keeps => instance'.mono keeps
  | some init =>
      have bound := inView_boundMethod.mpr ⟨instance', found init rfl⟩
      refine (calls bound ((held.mono making).mono resolving)).bind fun _ _ keeps _ => ?_
      exact blind_pure fun _ further => (instance'.mono keeps).mono further

theorem blind_construct (calls : call.Blind concealed) (type : TypeId) {given : Arguments}
    (held : given.InView concealed known) :
    (Machine.construct call type given).Blind concealed known (Value.InView concealed) := by
  refine Computation.Blind.get (fun _ => rfl) fun machine _ _ => ?_
  split
  · exact blind_constructError type held
  · split
    · refine blind_step fun world closed keeps => ?_
      refine .ite Iff.rfl (fun _ => .refuses rfl) fun _ => closed.convert type ?_
      exact fun value member => (held.positional value member).mono keeps
    · exact blind_constructInstance calls type held

/-! ## Values -/

theorem inView_unbind {callee : Value} {given : Arguments} (held : callee.InView concealed known)
    (so : given.InView concealed known) :
    (Machine.unbind callee given).1.InView concealed known ∧
      (Machine.unbind callee given).2.InView concealed known := by
  induction callee generalizing given with
  | boundMethod receiver method _ ih =>
      obtain ⟨first, second⟩ := inView_boundMethod.mp held
      exact ih second ⟨List.forall_mem_cons.mpr ⟨first, so.positional⟩, so.keywords⟩
  | _ => exact ⟨held, so⟩

theorem blind_runBody (calls : call.Blind concealed) {function : FunctionDef}
    (shared : function.signature.InView concealed known) {given : Arguments}
    (held : given.InView concealed known) :
    (Machine.runBody call function given).Blind concealed known (Value.InView concealed) := by
  have bound : (Machine.update (Machine.bindArguments function given)).Blind concealed known
      fun heap bound => Binding.SlotsInView concealed heap bound.slots := by
    refine blind_machine_update fun world closed keeps => ?_
    have blind := closed.bindArguments (shared.mono keeps) (held.mono keeps)
    exact ⟨blind.same, fun made given => ⟨(blind.value made given).world,
      (blind.value made given).keeps, (blind.value made given).slots⟩, blind.error⟩
  refine bound.bind fun _ bound _ slots => ?_
  refine Computation.Blind.look (fun _ _ => True) (fun _ _ _ => rfl) (fun machine _ _ => ?_)
    fun _ body keeps _ => blind_inFrame ?_ (blind_eval calls body)
  · split
    · exact trivial
    · exact Error.inView_ofCause _
  · exact Table.every_empty.setAll fun slot member => (slots slot member).mono keeps

theorem blind_callUnbound (calls : call.Blind concealed) {callee : Value} {given : Arguments}
    (held : callee.InView concealed known) (so : given.InView concealed known) :
    (Machine.callUnbound call callee given).Blind concealed known (Value.InView concealed) := by
  cases callee with
  | function id =>
      refine Computation.Blind.look
        (fun heap (function : FunctionDef) => function.signature.InView concealed heap)
        (fun _ _ _ => rfl) (fun machine closed _ => ?_) fun _ _ keeps shared =>
          blind_within _ (blind_runBody calls shared (so.mono keeps))
      split
      · next defined =>
          exact (Machine.Closed.world closed).heap.signature (inView_function.mp held).2 defined
      · exact Error.inView_ofCause _
  | native native => exact blind_callNative calls native so
  | type type => exact blind_construct calls type so
  | _ => exact blind_refuses (fun world => .notCallable (world.typeNameOf _)) fun _ => rfl

/-- Calls are blind, however deep they may be nested. -/
theorem blind_call (depth : Nat) : (Machine.call depth).Blind concealed := by
  induction depth with
  | zero => exact fun _ _ => blind_exhausted
  | succ depth ih =>
      intro known callee given held so
      obtain ⟨target, arguments⟩ := inView_unbind held so
      exact blind_callUnbound ih target arguments

end Calls

end ScriptCore
