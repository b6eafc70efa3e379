import ScriptCore.Proofs.Errors.Computations
import ScriptCore.Proofs.Run.Careful

/-!
# Runs with well-formed errors

Whatever is called and evaluated, errors on the way are proper, as long as no operation
makes an error value of a type that is no exception.
-/

namespace ScriptCore

variable {known : Registry}

/-! ## Try regions -/

section Regions

variable {error : Error} {handler : Computation Activation Value}

theorem safe_enterHandler (index : Nat) (proper : error.Proper known) :
    Safe known (Activation.enterHandler index error) fun _ _ => True := by
  refine safe_mark fun activation so grows => ?_
  have current := proper.mono grows
  refine ⟨⟨⟨so.machine.world, ?_⟩, so.locals⟩, rfl, fun _ same => by cases same; exact current⟩
  exact List.forall_mem_cons.mpr ⟨current, so.machine.handling⟩

theorem safe_exitHandler : Safe known Activation.exitHandler fun _ _ => True := by
  refine safe_mark fun activation so _ => ⟨⟨⟨so.machine.world, ?_⟩, so.locals⟩, rfl, nofun⟩
  exact fun error member => so.machine.handling error (List.mem_of_mem_tail member)

theorem safe_handle (region : Region) (index : Nat) (proper : error.Proper known)
    (safe : Safe known handler Value.Proper) :
    Safe known (Activation.handle region index error handler) Value.Proper := by
  refine (safe_enterHandler index proper).bind fun _ _ entered _ => ?_
  refine (safe.weaken entered).result.bind fun _ result _ answers => ?_
  refine safe_exitHandler.bind fun _ _ exited _ => ?_
  refine safe_require.bind fun _ _ grows _ => ?_
  exact safe_conclude ((answers.mono exited).mono grows)

theorem safe_dispatch {clauses : List Clause} (proper : error.Proper known)
    {handlers : Nat → Error → Computation Activation Value}
    (safe : ∀ later index, known.Grows later → Safe later (handlers index error) Value.Proper) :
    Safe known (Activation.dispatch clauses error handlers) Value.Proper := by
  have asked : Safe known (.mark (.select error) id : Computation Activation Unit)
      fun _ _ => True :=
    safe_mark fun _ so grows => ⟨so, rfl, fun _ same => by cases same; exact proper.mono grows⟩
  refine asked.bind fun _ _ asking _ => ?_
  refine Safe.look (fun _ _ => True) (fun _ _ _ => trivial) fun later _ looking _ => ?_
  have grows := asking.trans looking
  refine safe_require.bind fun last chosen choosing _ => ?_
  have further := grows.trans choosing
  obtain ⟨route, region⟩ := chosen
  cases route with
  | handle index => exact safe_handle region index (proper.mono further) (safe last index further)
  | propagate =>
      have raised : Answers last (Value.Proper last) (.error error) := proper.mono further
      exact safe_conclude raised

theorem safe_guarded {clauses : List Clause} {body : Computation Activation Value}
    {handlers : Nat → Error → Computation Activation Value}
    (safe : Safe known body Value.Proper)
    (handled : ∀ later index error, known.Grows later → error.Proper later →
      Safe later (handlers index error) Value.Proper) :
    Safe known (Activation.guarded clauses body handlers) Value.Proper := by
  refine safe.result.bind fun later result grows answers => ?_
  cases result with
  | ok value =>
      refine safe_require.bind fun _ _ further _ => safe_pure fun _ last => ?_
      exact (Value.Proper.mono further answers).mono last
  | error error =>
      exact safe_dispatch answers fun last index further =>
        handled last index error (grows.trans further) (Error.Proper.mono further answers)

theorem safe_bindError (binding : Option Name) (proper : error.Proper known) :
    Safe known (Activation.bindError binding error) fun _ _ => True := by
  unfold Activation.bindError
  cases binding with
  | none => exact safe_pure fun _ _ => trivial
  | some name =>
      refine safe_update fun activation so grows => ?_
      have made := so.machine.world.newError (proper.mono grows)
      obtain ⟨locals, world⟩ := made.world.storeName so.locals name made.value
      exact ⟨⟨⟨world, so.machine.handling⟩, locals⟩, .refl _, trivial⟩

end Regions

/-! ## Expressions -/

section Arguments

variable {holds : Value → Prop}

theorem Arguments.All.ofList {values : List Value} (held : ∀ value ∈ values, holds value) :
    (Arguments.ofList values).All holds :=
  ⟨held, List.forall_mem_nil _⟩

theorem Arguments.All.empty : ({} : Arguments).All holds :=
  ⟨List.forall_mem_nil _, List.forall_mem_nil _⟩

theorem Caller.all_arguments {values : List Value} (keywords : List Name)
    (held : ∀ value ∈ values, holds value) : (Caller.arguments values keywords).All holds where
  positional value member := held value (List.mem_of_mem_take member)
  keywords _ member := held _ (List.mem_of_mem_drop (List.of_mem_zip member).2)

/-- The shared defaults of a parameter list are among the values that were given for them. -/
theorem Declaration.forall_shared {declarations : List Declaration} {defaults : List Value}
    (none : holds .none) (held : ∀ value ∈ defaults, holds value) :
    ∀ p ∈ Declaration.parameters declarations defaults, ∀ value,
      p.default = some (.shared value) → holds value := by
  induction declarations generalizing defaults with
  | nil => exact nofun
  | cons declaration rest ih =>
      obtain ⟨name, kind, default⟩ := declaration
      cases default with
      | none => exact List.forall_mem_cons.mpr ⟨nofun, ih held⟩
      | fresh recipe => exact List.forall_mem_cons.mpr ⟨nofun, ih held⟩
      | shared =>
          refine List.forall_mem_cons.mpr ⟨fun value same => ?_, ih fun value member =>
            held value (List.mem_of_mem_tail member)⟩
          cases defaults with
          | nil =>
              cases same
              exact none
          | cons first others =>
              cases same
              exact held first List.mem_cons_self

end Arguments

/-- Operations are performed safely, whatever they are performed on. -/
def Performer.Safe (perform : Performer) : Prop :=
  ∀ {known : Registry} (op : Operation) {operands : List Value},
    (∀ operand ∈ operands, operand.Proper known) →
      ScriptCore.Safe known (perform op operands) Value.Proper

/-- Calls are safe, whatever is called. -/
def Caller.Safe (call : Caller) : Prop :=
  ∀ {known : Registry} {callee : Value} {arguments : Arguments},
    callee.Proper known → arguments.Proper known →
      ScriptCore.Safe known (call callee arguments) Value.Proper

section Expressions

variable {perform : Performer} {call : Caller}

theorem safe_define (name : Name) (declarations : List Declaration) (doc : Option String)
    (body : Expr) {defaults : List Value} (held : ∀ value ∈ defaults, value.Proper known) :
    Safe known (Activation.define name declarations doc body defaults) Value.Proper :=
  safe_onMachine <| safe_step fun _ proper grows =>
    proper.defineFunction name doc body (Declaration.forall_shared proper_none
      fun value member => (held value member).mono grows)

theorem safe_isTrue (value : Value) : Safe known (Activation.isTrue value) fun _ _ => True :=
  safe_inspect fun _ _ _ => trivial

theorem World.Proper.resolveTypes {world : World} (proper : world.Proper) (refs : List TypeRef) :
    Answers world.types (fun _ => True) (ClauseForm.resolveTypes world.types refs) := by
  induction refs with
  | nil => exact trivial
  | cons ref rest ih =>
      exact (proper.resolveRef ref).bind fun _ _ => ih.bind fun _ _ => trivial

theorem World.Proper.resolveClauses {world : World} (proper : world.Proper)
    (forms : List ClauseForm) :
    Answers world.types (fun _ => True) (ClauseForm.resolveAll world.types forms) := by
  induction forms with
  | nil => exact trivial
  | cons form rest ih =>
      have resolved : Answers world.types (fun _ => True) (form.resolve world.types) := by
        cases form with
        | types refs => exact (proper.resolveTypes refs).map fun _ _ => trivial
        | unresolved name => exact trivial
        | bare => exact trivial
      exact resolved.bind fun _ _ => ih.bind fun _ _ => trivial

theorem safe_clauses (forms : List ClauseForm) :
    Safe known (Activation.clauses forms) fun _ _ => True :=
  safe_inspect fun _ proper _ => proper.machine.world.resolveClauses forms

theorem safe_method (calls : call.Safe) {receiver : Value} {arguments : Arguments} (name : Name)
    (held : receiver.Proper known) (given : arguments.Proper known) :
    Safe known (call.method receiver name arguments) Value.Proper := by
  refine Safe.look Value.Proper (fun machine proper grows => ?_)
    fun _ _ grows method => calls method (given.mono grows)
  exact proper.world.getAttribute (held.mono grows)

theorem safe_fast (calls : call.Safe) {operands : List Value} (name : Name)
    (held : ∀ operand ∈ operands, operand.Proper known) :
    Safe known (call.fast name operands) Value.Proper := by
  cases operands with
  | nil => exact safe_inspect fun _ proper _ => proper.world.refuses _
  | cons first rest =>
      refine Safe.look Value.Proper (fun machine proper _ => ?_)
        fun _ _ grows method => calls method (Arguments.Proper.mono grows (.ofList held))
      split
      · next resolved => exact proper.world.resolve resolved
      · exact proper.world.refuses _

theorem safe_caller_perform (calls : call.Safe) (form : CallForm) {operands : List Value}
    (held : ∀ operand ∈ operands, operand.Proper known) :
    Safe known (call.perform form operands) Value.Proper := by
  cases form with
  | fast name =>
      cases operands <;> exact safe_fast calls name held
  | value keywords =>
      cases operands with
      | nil => exact safe_inspect fun _ proper _ => proper.world.refuses _
      | cons callee rest =>
          rw [List.forall_mem_cons] at held
          exact calls held.1 (Caller.all_arguments keywords held.2)
  | method name keywords =>
      cases operands with
      | nil => exact safe_inspect fun _ proper _ => proper.world.refuses _
      | cons receiver rest =>
          rw [List.forall_mem_cons] at held
          exact safe_method calls name held.1 (Caller.all_arguments keywords held.2)

mutual

theorem safe_evalWith {known : Registry} (performs : perform.Safe) (calls : call.Safe) :
    ∀ expr : Expr, Safe known (expr.evalWith perform call) Value.Proper
  | .literal written => safe_pure fun _ _ => proper_literal written
  | .sequence items => safe_evalLastWith performs calls items proper_none
  | .branch condition yes no => by
      refine (safe_evalWith performs calls condition).bind fun _ value _ _ => ?_
      refine (safe_isTrue value).bind fun _ holds _ _ => ?_
      cases holds with
      | true => exact safe_evalWith performs calls yes
      | false => exact safe_evalWith performs calls no
  | .loop count body =>
      ((safe_evalWith performs calls body).repeated count).bind fun _ _ _ _ =>
        safe_pure fun _ _ => proper_none
  | .call form operands =>
      (safe_evalAllWith performs calls operands).bind fun _ _ _ held =>
        safe_onMachine (safe_caller_perform calls form held)
  | .apply operation operands =>
      (safe_evalAllWith performs calls operands).bind fun _ _ _ held => performs operation held
  | .define name declarations doc body defaults =>
      (safe_evalAllWith performs calls defaults).bind fun _ _ _ held =>
        safe_define name declarations doc body held
  | .guarded forms binding body handlers => by
      refine (safe_clauses forms).bind fun _ _ _ _ => ?_
      refine safe_guarded (safe_evalWith performs calls body) fun _ index error _ proper => ?_
      exact (safe_bindError binding proper).bind fun _ _ _ _ =>
        safe_evalAtWith performs calls handlers index

theorem safe_evalLastWith {known : Registry} (performs : perform.Safe) (calls : call.Safe) :
    ∀ (items : List Expr) {last : Value}, last.Proper known →
      Safe known (Expr.evalLastWith perform call items last) Value.Proper
  | [], _, held => safe_pure fun _ grows => held.mono grows
  | item :: rest, _, _ =>
      (safe_evalWith performs calls item).bind fun _ _ _ value =>
        safe_evalLastWith performs calls rest value

theorem safe_evalAllWith {known : Registry} (performs : perform.Safe) (calls : call.Safe) :
    ∀ items : List Expr, Safe known (Expr.evalAllWith perform call items)
      fun types values => ∀ value ∈ values, value.Proper types
  | [] => safe_pure fun _ _ => nofun
  | item :: rest => by
      refine (safe_evalWith performs calls item).bind fun _ value _ first => ?_
      refine (safe_evalAllWith performs calls rest).bind fun _ values grows others => ?_
      refine safe_pure fun _ further => List.forall_mem_cons.mpr ⟨?_, fun other member => ?_⟩
      · exact (first.mono grows).mono further
      · exact (others other member).mono further

theorem safe_evalAtWith {known : Registry} (performs : perform.Safe) (calls : call.Safe) :
    ∀ (items : List Expr) (index : Nat),
      Safe known (Expr.evalAtWith perform call items index) Value.Proper
  | [], _ => safe_pure fun _ _ => proper_none
  | item :: _, 0 => safe_evalWith performs calls item
  | _ :: rest, index + 1 => safe_evalAtWith performs calls rest index

end

end Expressions

/-! ## Calls -/

section Calls

/-- A call stack that refuses a function does so with an error of the right type. -/
theorem proper_of_push {types : Registry} (builtin : Registry.builtin.Grows types)
    {stack : CallStack} {name : Name} {error : Error} (refused : stack.push name = .error error) :
    error.Proper types := by
  unfold CallStack.push at refused
  split at refused
  · split at refused
    · cases refused
    · cases refused
      exact .ofCause builtin _
  · cases refused

theorem safe_enter (name : Name) : Safe known (Machine.enter name) fun _ _ => True := by
  intro machine proper _
  cases pushed : machine.calls.push name with
  | ok calls =>
      obtain ⟨entered, trail⟩ := Machine.enter_of_ok pushed
      rw [entered, trail]
      have inside : Machine.Proper { machine with calls } := ⟨proper.world, proper.handling⟩
      exact ⟨List.forall_mem_singleton.mpr (clean_quiet rfl inside (.refl _)), inside, .refl _,
        trivial⟩
  | error error =>
      obtain ⟨refused, trail⟩ := Machine.enter_of_error pushed
      rw [refused, trail]
      have raised := proper_of_push proper.world.builtin pushed
      have asked : Moment.Clean machine.world.types ⟨.refuse name, machine⟩ :=
        clean_quiet rfl proper (.refl _)
      refine ⟨List.forall_mem_cons.mpr ⟨asked, ?_⟩, proper, .refl _, raised⟩
      exact List.forall_mem_singleton.mpr (clean_raise proper raised)

theorem safe_leave (name : Name) : Safe known (Machine.leave name) fun _ _ => True := by
  intro machine proper _
  simp only [Machine.leave]
  cases machine.calls.pop with
  | ok calls =>
      have outside : Machine.Proper { machine with calls } := ⟨proper.world, proper.handling⟩
      exact ⟨List.forall_mem_singleton.mpr (clean_quiet rfl outside (.refl _)), outside, .refl _,
        trivial⟩
  | error defect => exact ⟨List.forall_mem_nil _, proper, .refl _, trivial⟩

theorem safe_within (name : Name) {body : Computation Machine Value}
    (safe : Safe known body Value.Proper) :
    Safe known (Machine.within name body) Value.Proper := by
  refine (safe_enter name).bind fun _ _ entered _ => ?_
  refine (safe.weaken entered).result.bind fun _ result _ answers => ?_
  refine (safe_leave name).bind fun _ _ left _ => safe_conclude ?_
  cases result with
  | ok value => exact Value.Proper.mono left answers
  | error error => exact (Error.Proper.mono left answers).leave name

variable {perform : Performer} {call : Caller} {arguments : List Value}

theorem safe_length (calls : call.Safe) {value : Value} (held : value.Proper known) :
    Safe known (Machine.length call value) Value.Proper := by
  unfold Machine.length
  split
  · exact safe_pure fun _ _ => proper_ofNat _
  · exact safe_pure fun _ _ => proper_ofNat _
  · refine (safe_method calls "__len__" held Arguments.All.empty).bind fun _ result _ _ => ?_
    split
    · exact safe_pure fun _ _ => proper_int _
    · exact safe_inspect fun _ proper _ => proper.world.refuses _

theorem safe_total (calls : call.Safe) {start : Value} {items : List Value}
    (first : start.Proper known) (held : ∀ item ∈ items, item.Proper known) :
    Safe known (Machine.total call start items) Value.Proper := by
  induction items generalizing known start with
  | nil => exact safe_pure fun _ grows => first.mono grows
  | cons item rest ih =>
      obtain ⟨second, others⟩ := List.forall_mem_cons.mp held
      have both := List.forall_mem_cons.mpr ⟨first, List.forall_mem_singleton.mpr second⟩
      refine (safe_fast calls "__add__" both).bind fun _ next grows sum => ih sum ?_
      exact fun other member => (others other member).mono grows

theorem safe_sum (calls : call.Safe) {sequence start : Value} (held : sequence.Proper known)
    (first : start.Proper known) : Safe known (Machine.sum call sequence start) Value.Proper := by
  refine Safe.look (fun types items => ∀ item ∈ items, item.Proper types)
    (fun machine proper grows => ?_)
    fun _ _ grows items => safe_total calls (first.mono grows) items
  split
  · next items => exact proper.world.heap.sequence (held.mono grows) items
  · exact proper.world.refuses _

theorem safe_runNative (calls : call.Safe) (builtin : Builtin)
    (held : ∀ argument ∈ arguments, argument.Proper known) :
    Safe known (Machine.runNative call builtin arguments) Value.Proper := by
  unfold Machine.runNative
  split
  · exact safe_length calls (held _ (by simp))
  · exact safe_inspect fun _ proper _ => proper.world.refuses _
  · exact safe_sum calls (held _ (by simp)) (proper_int _)
  · exact safe_sum calls (held _ (by simp)) (held _ (by simp))
  · exact safe_inspect fun _ proper _ => proper.world.refuses _
  · exact safe_step fun _ proper grows => proper.runSimple _ fun argument member =>
      (held argument member).mono grows

theorem safe_callNative (calls : call.Safe) (native : Native) {given : Arguments}
    (held : given.Proper known) :
    Safe known (Machine.callNative call native given) Value.Proper := by
  refine Safe.look (fun _ _ => True) (fun machine proper _ => ?_)
    fun _ builtin grows _ => safe_runNative calls builtin fun value member =>
      (held.positional value member).mono grows
  unfold Machine.nativeBody
  refine .ite (fun _ => proper.world.refuses _) fun _ => ?_
  refine .ite (fun _ => proper.world.refuses _) fun _ => ?_
  split
  · exact trivial
  · exact proper.world.refuses _

/-! ## Types -/

theorem proper_errorPayload (held : ∀ argument ∈ arguments, argument.Proper known) :
    (Machine.errorPayload arguments).Proper known := by
  unfold Machine.errorPayload
  split
  · exact proper_none
  · exact held _ (by simp)
  · exact proper_tuple.mpr held

theorem safe_constructError {type : TypeId} {given : Arguments} (held : given.Proper known)
    (exception : known.isSubtype type .exception = true) :
    Safe known (Machine.constructError type given) Value.Proper := by
  refine safe_step fun world proper grows => ?_
  split
  · exact proper.refuses _
  · refine proper.newError (.raised _ _ (grows.isSubtype exception) ?_)
    exact (proper_errorPayload held.positional).mono grows

theorem safe_constructInstance (calls : call.Safe) (type : TypeId) {given : Arguments}
    (held : given.Proper known) :
    Safe known (Machine.constructInstance call type given) Value.Proper := by
  have made : Safe known (Machine.update fun world =>
      .ok (world.allocate (world.heap.newInstance type))) Value.Proper :=
    safe_step fun _ proper _ => proper.newObject type Payload.proper_plain
  refine made.bind fun _ value making new => ?_
  refine Safe.look (fun types found => ∀ init ∈ found, init.Proper types)
    (fun _ proper _ _ found => proper.world.resolve found) fun _ init resolving found => ?_
  have instance' := new.mono resolving
  cases init with
  | none => exact safe_pure fun _ grows => instance'.mono grows
  | some init =>
      have bound := proper_boundMethod.mpr ⟨instance', found init rfl⟩
      refine (calls bound ((held.mono making).mono resolving)).bind fun _ _ grows _ => ?_
      exact safe_pure fun _ further => (instance'.mono grows).mono further

theorem safe_construct (calls : call.Safe) (type : TypeId) {given : Arguments}
    (held : given.Proper known) :
    Safe known (Machine.construct call type given) Value.Proper := by
  refine Safe.look (fun types machine => machine.world.types = types) (fun _ _ _ => rfl)
    fun later machine grows same => ?_
  have given := held.mono grows
  split
  · next exception => exact safe_constructError given (same ▸ exception)
  · split
    · refine safe_step fun world proper further => ?_
      refine .ite (fun _ => proper.refuses _) fun _ => proper.convert type ?_
      exact fun value member => (given.positional value member).mono further
    · exact safe_constructInstance calls type given

/-! ## Values -/

theorem proper_unbind {callee : Value} {given : Arguments} (held : callee.Proper known)
    (so : given.Proper known) :
    (Machine.unbind callee given).1.Proper known ∧
      (Machine.unbind callee given).2.Proper known := by
  induction callee generalizing given with
  | boundMethod receiver method _ ih =>
      obtain ⟨first, second⟩ := proper_boundMethod.mp held
      exact ih second ⟨List.forall_mem_cons.mpr ⟨first, so.positional⟩, so.keywords⟩
  | _ => exact ⟨held, so⟩

theorem safe_runBodyWith (performs : perform.Safe) (calls : call.Safe) {function : FunctionDef}
    (shared : ∀ p ∈ function.signature.parameters, ∀ value, p.default = some (.shared value) →
      value.Proper known) {given : Arguments} (held : given.Proper known) :
    Safe known (Machine.runBodyWith perform call function given) Value.Proper := by
  have bound : Safe known (Machine.update (Machine.bindArguments function given))
      fun types bound => ∀ slot ∈ bound.slots, slot.2.Proper types := by
    refine safe_machine_update fun world proper grows => ?_
    have answers := proper.bindArguments (fun p member value same =>
      (shared p member value same).mono grows) (held.mono grows)
    exact answers.imp fun made so => ⟨so.2.1, so.2.2 ▸ .refl _, so.2.2 ▸ so.1⟩
  refine bound.bind fun _ bound _ slots => ?_
  refine Safe.look (fun _ _ => True) (fun machine proper _ => ?_)
    fun _ body grows _ => safe_inFrame ?_ (safe_evalWith performs calls body)
  · split
    · exact trivial
    · exact proper.world.refuses _
  · exact Table.every_empty.setAll fun slot member => (slots slot member).mono grows

theorem safe_callUnboundWith (performs : perform.Safe) (calls : call.Safe) {callee : Value}
    {given : Arguments} (held : callee.Proper known) (so : given.Proper known) :
    Safe known (Machine.callUnboundWith perform call callee given) Value.Proper := by
  cases callee with
  | function id =>
      refine Safe.look (fun types function => ∀ p ∈ function.signature.parameters, ∀ value,
        p.default = some (.shared value) → value.Proper types) (fun machine proper _ => ?_)
        fun _ _ grows shared => safe_within _ (safe_runBodyWith performs calls shared
          (so.mono grows))
      split
      · next defined => exact proper.world.heap.shared defined
      · exact proper.world.refuses _
  | native native => exact safe_callNative calls native so
  | type type => exact safe_construct calls type so
  | _ => exact safe_inspect fun _ proper _ => proper.world.refuses _

/-- Calls are safe, however deep they may be nested. -/
theorem safe_callWith (performs : perform.Safe) (depth : Nat) :
    (Machine.callWith perform depth).Safe := by
  induction depth with
  | zero => exact fun _ _ => safe_exhausted
  | succ depth ih =>
      intro known callee given held so
      obtain ⟨target, arguments⟩ := proper_unbind held so
      exact safe_callUnboundWith performs ih target arguments

end Calls

/-! ## Careful runs -/

namespace Activation

/-- Refuse to make an error value of a type that is no exception. -/
def check (op : Operation) (operands : List Value) : Computation Activation Unit :=
  .inspect fun activation =>
    if op.admissible activation.machine.world.types operands then .ok ()
    else .error (.wrongOperands operands)

/-- Check an operation, then perform it. -/
def careful : Performer := fun op operands => do
  check op operands
  perform op operands

end Activation

theorem Operation.admissible_mono {later : Registry} {op : Operation} {operands : List Value}
    (grows : known.Grows later) (admissible : op.admissible known operands = true) :
    op.admissible later operands = true := by
  unfold Operation.admissible at admissible ⊢
  split at admissible
  · exact grows.isSubtype admissible
  · rfl

theorem safe_perform {op : Operation} {operands : List Value}
    (admissible : op.admissible known operands = true)
    (held : ∀ operand ∈ operands, operand.Proper known) :
    Safe known (Activation.perform op operands) Value.Proper := by
  refine safe_update fun activation proper grows => ?_
  have answers := proper.machine.perform proper.locals op
    (fun operand member => (held operand member).mono grows)
    (Operation.admissible_mono grows admissible)
  exact answers.map fun made leads =>
    ⟨⟨proper.machine.withWorld leads.step.grows leads.step.world, leads.locals⟩, leads.step.grows,
      leads.step.value⟩

theorem careful_safe : Performer.Safe Activation.careful := by
  intro known op operands held
  refine Safe.look (fun types _ => op.admissible types operands = true)
    (fun activation proper _ => ?_) fun _ _ grows admissible =>
      safe_perform admissible fun operand member => (held operand member).mono grows
  exact .ite (fun admissible => admissible) fun _ => proper.machine.world.refuses _

end ScriptCore
