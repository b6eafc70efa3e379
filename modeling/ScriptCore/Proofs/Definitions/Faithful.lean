import ScriptCore.Proofs.Definitions.Courses
import ScriptCore.Proofs.Definitions.Routines
import ScriptCore.Proofs.Run.Limit
import ScriptCore.Proofs.Value.Equality

/-!
# A function runs the body it was defined with

The history of a runtime has all its worlds, from the bare one before the built-in functions
are defined to the one that a program of the host leaves.  Whatever has been done since a
definition, the function that it gave runs the body that was defined.
-/

namespace ScriptCore

/-! ## Programs of a host -/

/-- What a host does to the world without evaluating or calling anything. -/
inductive World.Changes : {α : Type} → (World → Except Error (α × World)) → Prop where
  | define (name : Name) (parameters : List Parameter) (doc : Option String) (body : Expr) :
      Changes fun world => world.defineFunction name parameters doc body
  | defineNative (name : Name) (arity : Option Nat) (doc : Option String) (builtin : Builtin) :
      Changes fun world => .ok (world.defineNative name arity doc builtin)
  /-- Bind arguments without a call. -/
  | bind (function : FunctionDef) (arguments : Arguments) :
      Changes (Machine.bindArguments function arguments)
  /-- Make a function of one's own that names any place for its body. -/
  | forge (function : FunctionDef) :
      Changes fun world => .ok (world.allocate (world.heap.newFunction function))
  /-- Make an error into a value. -/
  | wrap (error : Error) :
      Changes fun world => .ok (world.allocate (world.heap.newError error))
  /-- Overwrite what an object holds. -/
  | fill (id : Identity) (payload : Payload) :
      Changes fun world => .ok ((), world.setPayload id payload)
  /-- Overwrite what is attached to an object or a function. -/
  | attach (id : Identity) (attributes : Attributes) :
      Changes fun world => .ok ((), { world with heap := world.heap.setAttributes id attributes })
  /-- Change the types in any way. -/
  | retype (types : Registry) : Changes fun world => .ok ((), { world with types })
  /-- Bind the names of the module and the built-in names to anything. -/
  | rebind (globals : GlobalScope) (builtins : Table Name Value) :
      Changes fun world => .ok ((), { world with globals, builtins })

/-- The programs that a host can run. -/
inductive Program : {α : Type} → Computation Activation α → Prop where
  | pure {α : Type} (a : α) : Program (.pure a)
  | bind {α β : Type} {first : Computation Activation α} {next : α → Computation Activation β}
      (left : Program first) (right : ∀ a, Program (next a)) : Program (first >>= next)
  | inspect {α : Type} (look : Activation → Except Error α) : Program (.inspect look)
  | change {α : Type} {step : World → Except Error (α × World)} (changes : World.Changes step) :
      Program (Activation.onMachine (Machine.update step))
  | switch (frame : Frame) :
      Program (.update fun activation => .ok ((), { activation with frame }))
  | perform (op : Operation) (operands : List Value) : Program (Activation.perform op operands)
  | attempt {α : Type} {body : Computation Activation α} (inner : Program body) :
      Program body.attempt
  | guarded {clauses : List Clause} {body : Computation Activation Value}
      {handlers : Nat → Error → Computation Activation Value} (inner : Program body)
      (guards : ∀ index error, Program (handlers index error)) :
      Program (Activation.guarded clauses body handlers)
  | evaluate (depth : Nat) (expr : Expr) : Program (expr.eval (Machine.call depth))
  | invoke (depth : Nat) (invocation : Invocation) :
      Program (Activation.onMachine (invocation.run (Machine.call depth)))
  | callWith (function : FunctionDef) (arguments : Arguments)
      {body : Computation Activation Value} (inner : Program body) :
      Program (Activation.callWith function arguments body)

section Programs

variable {α : Type}

theorem World.Changes.advances {step : World → Except Error (α × World)}
    (changes : World.Changes step) (world : World) : Gives (world.Advances ·.2) (step world) := by
  cases changes with
  | define name parameters doc body => exact world.advances_defineFunction name parameters doc body
  | defineNative name arity doc builtin =>
      exact gives_ok.mpr (.defines (.native name arity doc builtin))
  | bind function arguments =>
      exact fun made bound => .stays (world.stays_bindArguments function arguments made bound)
  | forge function =>
      exact gives_ok.mpr (.stays (World.stays_mk.mpr (world.heap.retains_newFunction function)))
  | wrap error =>
      exact gives_ok.mpr (.stays (World.stays_mk.mpr (world.heap.retains_newError error)))
  | fill id payload => exact gives_ok.mpr (.stays (world.stays_setPayload id payload))
  | attach id attributes =>
      exact gives_ok.mpr
        (.stays (World.stays_mk.mpr (world.heap.retains_setAttributes id attributes)))
  | retype types => exact gives_ok.mpr (.stays (World.stays_mk.mpr (.refl _)))
  | rebind globals builtins => exact gives_ok.mpr (.stays (World.stays_mk.mpr (.refl _)))

theorem Run.gapless_invocation (depth : Nat) (invocation : Invocation) :
    Gapless Machine.world (invocation.run (Machine.call depth)) := by
  cases invocation with
  | value callee arguments => exact gapless_call depth callee arguments
  | method receiver name arguments =>
      exact gapless_method (gapless_call depth) receiver name arguments
  | fast name operands => exact gapless_fast (gapless_call depth) name operands

/-- Whatever a host programs, the worlds on the way are a course. -/
theorem Program.gapless {program : Computation Activation α} (written : Program program) :
    Run.Gapless Activation.world program := by
  induction written with
  | pure a => exact Run.gapless_pure a
  | bind _ _ left right => exact Run.gapless_bind left right
  | inspect look => exact Run.gapless_inspect look
  | change changes => exact Run.gapless_onMachine (Run.gapless_machine_update changes.advances)
  | switch frame =>
      exact Run.gapless_update fun activation => gives_ok.mpr (.stays (.refl activation.world))
  | perform op operands => exact Run.gapless_perform op operands
  | attempt _ inner => exact Run.gapless_attempt inner
  | guarded _ _ inner guards => exact Run.gapless_guarded inner guards
  | evaluate depth expr => exact Run.gapless_eval (Run.gapless_call depth) expr
  | invoke depth invocation => exact Run.gapless_onMachine (Run.gapless_invocation depth invocation)
  | callWith function arguments _ inner =>
      exact Run.gapless_onMachine <| Run.gapless_within <|
        Run.gapless_bind (Run.gapless_keep fun world =>
          world.stays_bindArguments function arguments) fun bound => Run.gapless_inFrame _ inner

end Programs

/-! ## The history of a runtime -/

/-- The worlds that come up while built-in functions are defined and put where they belong. -/
def World.building (world : World) : List Builtin.Entry → List World
  | [] => []
  | entry :: rest =>
      (world.defineNative entry.name entry.arity entry.doc entry.builtin).2 ::
        world.addBuiltin entry :: (world.addBuiltin entry).building rest

theorem World.course_building (world : World) (entries : List Builtin.Entry) :
    Course world (world.building entries) (entries.foldl addBuiltin world) := by
  induction entries generalizing world with
  | nil => exact .done world
  | cons entry rest ih =>
      have placed : (world.defineNative entry.name entry.arity entry.doc entry.builtin).2.Stays
          (world.addBuiltin entry) := by
        unfold addBuiltin
        cases entry.owner with
        | some owner => exact stays_mk.mpr (.refl _)
        | none => exact stays_mk.mpr (.refl _)
      exact .step (.defines (.native _ _ _ _)) (.step (.stays placed) (ih _))

/--
All worlds of a runtime: those from the bare one to the one that the host gets, and those that
come up while a program of the host runs.
-/
def history {α : Type} (limit : Option Nat) (program : Computation Activation α) : List World :=
  .bare :: (World.bare.building Builtin.entries ++
    (program.trail (Session.start limit)).map (·.state.world))

theorem Program.course {α : Type} {program : Computation Activation α} (written : Program program)
    (limit : Option Nat) :
    World.Course .bare (history limit program).tail
      (program.run (Session.start limit)).2.world :=
  (World.bare.course_building Builtin.entries).append (written.gapless (Session.start limit))

/-! ## Definitions -/

/-- Places of bodies are numbered in 32 bits. -/
def BodyId.number (id : BodyId) : UInt32 := .ofNat id.index

/-- A definition among the steps from world to world, which are counted from zero on. -/
structure Definition (worlds : List World) where
  step : Nat
  before : World
  after : World
  routine : Routine
  value : Value
  start : worlds[step]? = some before
  finish : worlds[step + 1]? = some after
  defines : before.Defines routine value after

namespace Definition

/-- The place that the body has been given. -/
def id {worlds : List World} (definition : Definition worlds) : BodyId :=
  ⟨definition.before.bodies.length⟩

theorem eq_of_step {worlds : List World} {definition other : Definition worlds}
    (same : definition.step = other.step) :
    definition.before = other.before ∧ definition.after = other.after := by
  have start := definition.start
  have finish := definition.finish
  rw [same] at start finish
  exact ⟨Option.some_inj.mp (start.symm.trans other.start),
    Option.some_inj.mp (finish.symm.trans other.finish)⟩

theorem of_append {first middle next : World} {left right : List World} {routine : Routine}
    {value : Value} (last : (first :: left)[left.length]? = some middle)
    (defines : middle.Defines routine value next) :
    ∃ definition : Definition (first :: (left ++ next :: right)),
      definition.routine = routine ∧ definition.value = value ∧ definition.step = left.length := by
  refine ⟨⟨left.length, middle, next, routine, value, ?_, ?_, defines⟩, rfl, rfl, rfl⟩
  · rw [← List.cons_append, List.getElem?_append_left (by simp)]
    exact last
  · rw [List.getElem?_cons_succ, List.getElem?_append_right (Nat.le_refl _), Nat.sub_self]
    rfl

end Definition

section History

variable {α : Type} {program : Computation Activation α} {limit : Option Nat}

theorem World.building_append (world : World) (left right : List Builtin.Entry) :
    world.building (left ++ right) =
      world.building left ++ (left.foldl addBuiltin world).building right := by
  induction left generalizing world with
  | nil => rfl
  | cons entry rest ih =>
      simp only [List.cons_append, building, List.foldl_cons, ih]

/-- Every built-in function is defined in the history. -/
theorem Definition.of_entry {entry : Builtin.Entry} (member : entry ∈ Builtin.entries) :
    ∃ definition : Definition (history limit program),
      definition.routine = .native entry.name entry.arity entry.builtin := by
  obtain ⟨left, right, split⟩ := List.append_of_mem member
  have built := World.bare.course_building left
  have last := built.getElem?_append [] 0
  rw [List.append_nil] at last
  rw [history, split, World.building_append, List.append_assoc]
  obtain ⟨definition, routine, _⟩ := of_append last (.native entry.name entry.arity entry.doc _)
  exact ⟨definition, routine⟩

theorem Run.getElem?_stateAfter (start : Activation) (trail : List (Moment Activation)) :
    (start.world :: trail.map (·.state.world))[trail.length]? =
      some (stateAfter start trail).world := by
  induction trail generalizing start with
  | nil => rfl
  | cons moment rest ih => exact ih moment.state

/-- What is defined at some moment of the run is defined in the history. -/
theorem Definition.of_trail {earlier later : List (Moment Activation)} {moment : Moment Activation}
    {routine : Routine} {value : Value}
    (trail : program.trail (Session.start limit) = earlier ++ moment :: later)
    (defines : (Run.stateAfter (Session.start limit) earlier).world.Defines routine value
      moment.state.world) :
    ∃ definition : Definition (history limit program), definition.routine = routine ∧
      definition.value = value ∧
      definition.step = (World.bare.building Builtin.entries).length + earlier.length := by
  have built := World.bare.course_building Builtin.entries
  have last : (World.bare :: (World.bare.building Builtin.entries ++
      earlier.map (·.state.world)))[(World.bare.building Builtin.entries ++
        earlier.map (·.state.world)).length]? =
      some (Run.stateAfter (Session.start limit) earlier).world := by
    rw [List.length_append, List.length_map, built.getElem?_append]
    exact Run.getElem?_stateAfter (Session.start limit) earlier
  rw [history, trail, List.map_append, List.map_cons, ← List.append_assoc]
  -- The moments before this one are the steps that come after the building.
  obtain ⟨definition, routine, value, step⟩ := of_append last defines
  rw [List.length_append, List.length_map] at step
  exact ⟨definition, routine, value, step⟩

end History

/-! ## What becomes of definitions -/

section Lasting

variable {worlds : List World} (chain : worlds.IsChain World.Advances)

include chain

theorem exists_before {step : Nat} {after : World} (found : worlds[step + 1]? = some after) :
    ∃ before, worlds[step]? = some before ∧ before.Advances after := by
  obtain ⟨inside, rfl⟩ := List.getElem?_eq_some_iff.mp found
  exact ⟨_, List.getElem?_eq_getElem (Nat.lt_of_succ_lt inside), chain.getElem step inside⟩

theorem keeps_of_le {step later : Nat} (le : step ≤ later) {world after : World}
    (early : worlds[step]? = some world) (late : worlds[later]? = some after) :
    world.Keeps after := by
  induction le generalizing after with
  | refl =>
      cases early.symm.trans late
      exact .refl world
  | step _ ih =>
      obtain ⟨middle, found, advances⟩ := exists_before chain late
      exact (ih found).trans advances.keeps

namespace Definition

variable (definition other : Definition worlds)

/-- The function holds what it was defined with in every world since. -/
theorem holds {later : Nat} {world : World} (since : definition.step < later)
    (found : worlds[later]? = some world) :
    world.Holds definition.routine definition.value definition.id :=
  definition.defines.holds.mono (keeps_of_le chain since definition.finish found)

/-- Places are given in the order of the definitions. -/
theorem index_lt (earlier : definition.step < other.step) :
    definition.id.index < other.id.index :=
  (definition.holds chain earlier other.start).index_lt

theorem not_equal (earlier : definition.step < other.step) :
    definition.value.equal other.value = false :=
  other.defines.not_equal (definition.holds chain earlier other.start)

theorem index_eq_iff :
    definition.id.index = other.id.index ↔ definition.step = other.step := by
  constructor
  · intro same
    rcases Nat.lt_trichotomy definition.step other.step with earlier | here | later
    · exact absurd same (Nat.ne_of_lt (definition.index_lt chain other earlier))
    · exact here
    · exact absurd same (Nat.ne_of_gt (other.index_lt chain definition later))
  · intro here
    rw [id, id, (eq_of_step here).1]

theorem equal_iff : definition.value.equal other.value = true ↔ definition.step = other.step := by
  constructor
  · intro equal
    rcases Nat.lt_trichotomy definition.step other.step with earlier | here | later
    · rw [definition.not_equal chain other earlier] at equal
      cases equal
    · exact here
    · rw [Value.equal_comm, other.not_equal chain definition later] at equal
      cases equal
  · intro here
    obtain ⟨before, after⟩ := eq_of_step here
    have again := other.defines
    rw [← before] at again
    exact definition.defines.equal again (congrArg World.bodies after)

end Definition

/-- Nothing gets into the table of bodies but by a definition. -/
theorem exists_definition_of_body (bare : ∀ world, worlds[0]? = some world → world.bodies = [])
    {later : Nat} {world : World} (found : worlds[later]? = some world) {id : BodyId} {body : Body}
    (there : world.body? id = some body) :
    ∃ definition : Definition worlds, definition.step < later ∧ definition.id = id ∧
      definition.routine.body = body := by
  -- Each step back either is the definition or leaves the body in the table.
  induction later generalizing world with
  | zero =>
      rw [World.body?, bare world found] at there
      cases there
  | succ step ih =>
      obtain ⟨before, start, advances⟩ := exists_before chain found
      have earlier (known : before.body? id = some body) :
          ∃ definition : Definition worlds, definition.step < step + 1 ∧ definition.id = id ∧
            definition.routine.body = body := by
        obtain ⟨definition, less, same⟩ := ih start known
        exact ⟨definition, Nat.lt_succ_of_lt less, same⟩
      cases advances with
      | stays stays =>
          rw [World.body?, stays.bodies] at there
          exact earlier there
      | @defines routine value _ defines =>
          rcases defines.body?_cases there with known | ⟨here, same⟩
          · exact earlier known
          · exact ⟨⟨step, before, world, routine, value, start, found, defines⟩,
              Nat.lt_succ_self _, here.symm, same⟩

end Lasting

/-! ## Faithful runtimes -/

/-- What holds of all definitions in a list of worlds. -/
structure Faithful (worlds : List World) : Prop where
  /--
  In every world since the definition the value is a function that runs the routine, and the
  number of its body leads to the body that was defined.
  -/
  resolves : ∀ (definition : Definition worlds) (later : Nat) (world : World),
    definition.step < later → worlds[later]? = some world →
      world.Holds definition.routine definition.value definition.id ∧
        world.bodies[definition.id.number.toNat]? = some definition.routine.body
  /--
  However a call comes to the value, it does what the routine does, which asks for no body and
  so cannot fail for want of one.
  -/
  runs : ∀ (definition : Definition worlds) (later : Nat) (machine : Machine),
    definition.step < later → worlds[later]? = some machine.world →
      ∀ invocation arguments, machine.Comes invocation definition.value arguments → ∀ depth,
        (invocation.run (Machine.call (depth + 1))).Agree
          (definition.routine.run (Machine.call depth) arguments) machine
  /-- Different definitions never share the number of a body. -/
  distinct : ∀ definition other : Definition worlds,
    definition.id.number = other.id.number ↔ definition.step = other.step
  /-- Functions are equal exactly if they come from the same definition. -/
  equal : ∀ definition other : Definition worlds,
    definition.value.equal other.value = true ↔ definition.step = other.step
  /-- Every body of the table comes from a definition, and so from one only. -/
  complete : ∀ (later : Nat) (world : World) (id : BodyId) (body : Body),
    worlds[later]? = some world → world.body? id = some body →
      ∃ definition : Definition worlds, definition.step < later ∧ definition.id = id ∧
        definition.routine.body = body

theorem Faithful.of_isChain {worlds : List World} (chain : worlds.IsChain World.Advances)
    (bare : ∀ world, worlds[0]? = some world → world.bodies = [])
    (room : ∀ world ∈ worlds, world.bodies.length ≤ UInt32.size) : Faithful worlds := by
  have numbered (definition : Definition worlds) :
      definition.id.number.toNat = definition.id.index := by
    have inside := definition.defines.holds.index_lt
    have few := room definition.after (List.mem_of_getElem? definition.finish)
    exact UInt32.toNat_ofNat_of_lt' (Nat.lt_of_lt_of_le inside few)
  constructor
  case resolves =>
    intro definition later world since found
    have holds := definition.holds chain since found
    rw [numbered]
    exact ⟨holds, holds.body?⟩
  case runs =>
    intro definition later machine since found invocation arguments comes depth
    exact (definition.holds chain since found).agree_run comes depth
  case distinct =>
    intro definition other
    rw [← UInt32.toNat_inj, numbered, numbered]
    exact definition.index_eq_iff chain other
  case equal => exact fun definition other => definition.equal_iff chain other
  case complete =>
    exact fun later world id body found there => exists_definition_of_body chain bare found there

/--
Whatever a host programs, every function that was ever defined runs the body that it was
defined with from then on, as long as there are numbers for all bodies.
-/
theorem functions_keep_their_bodies {α : Type} {program : Computation Activation α}
    (written : Program program) {limit : Option Nat}
    (room : (program.run (Session.start limit)).2.world.bodies.length ≤ UInt32.size) :
    Faithful (history limit program) := by
  have course := written.course limit
  refine .of_isChain course.isChain ?_ fun world member => ?_
  · intro world first
    cases first
    rfl
  · exact Nat.le_trans (course.keeps_last world member).bodies.length_le room

/-- The signature of a method that takes nothing but its receiver. -/
def receiverOnly : Signature := ⟨[⟨"self", .positional, none⟩], _, rfl⟩

/--
Define `f`, try to define it with the same parameter twice, define the same host function twice,
make `f` a method of a class and bind its name to something else.
-/
def rebinding : Computation Activation Value := do
  let f ← Activation.onMachine <| Machine.update fun world =>
    world.defineFunction "f" receiverOnly.parameters none (.literal (.int 1))
  let _ ← (Activation.onMachine <| Machine.update fun world =>
    world.defineFunction "f" (receiverOnly.parameters ++ receiverOnly.parameters) none
      (.literal .none)).attempt
  let one ← Activation.onMachine <| Machine.update fun world =>
    .ok (world.defineNative "n" none none .collect)
  let other ← Activation.onMachine <| Machine.update fun world =>
    .ok (world.defineNative "n" none none .collect)
  let _ ← Activation.perform (.make (.defineClass "C" ["m"])) [.none, f]
  let _ ← Activation.perform (.names (.store "f")) [one]
  return other

theorem program_rebinding : Program rebinding :=
  .bind (.change (.define _ _ _ _)) fun _ => .bind (.attempt (.change (.define _ _ _ _)))
    fun _ => .bind (.change (.defineNative _ _ _ _)) fun _ =>
      .bind (.change (.defineNative _ _ _ _)) fun _ => .bind (.perform _ _) fun _ =>
        .bind (.perform _ _) fun _ => .pure _

/-- The machine after that. -/
def rebound : Machine := (rebinding.run (Session.start (some 1))).2.machine

theorem functions_keep_their_bodies_rebinding :
    Program rebinding ∧ rebound.world.bodies.length ≤ UInt32.size ∧
      ∃ f one other : Definition (history (some 1) rebinding),
        f.value = .function ⟨0⟩ ∧ f.routine.body = .user (.literal (.int 1)) ∧
        ((Machine.call 1).fast "m" [.object ⟨1⟩ ⟨25⟩]).run rebound = (.value (.int 1), rebound) ∧
        one.routine = other.routine ∧ one.value.equal other.value = false ∧
        one.id.number ≠ other.id.number := by
  have room : rebound.world.bodies.length ≤ UInt32.size := by
    have few : rebound.world.bodies.length = 31 := rfl
    rw [few]
    decide
  have faithful := functions_keep_their_bodies program_rebinding room
  have accepted : Signature.ofParameters receiverOnly.parameters = .ok receiverOnly := rfl
  obtain ⟨f, routine, value, start⟩ :=
    @Definition.of_trail _ rebinding (some 1) [] _ _ _ _ rfl (.user accepted rfl)
  obtain ⟨one, first, _, early⟩ :=
    @Definition.of_trail _ rebinding (some 1) [_, _, _] _ _ _ _ rfl (.native "n" none none .collect)
  obtain ⟨other, second, _, late⟩ :=
    @Definition.of_trail _ rebinding (some 1) [_, _, _, _] _ _ _ _ rfl
      (.native "n" none none .collect)
  have last : f.step < 63 := by
    rw [start]
    decide
  have apart : one.step ≠ other.step := by
    rw [early, late]
    decide
  have comes : rebound.Comes (.fast "m" [.object ⟨1⟩ ⟨25⟩]) f.value
      (.ofList [.object ⟨1⟩ ⟨25⟩]) := by
    rw [value]
    exact .fast rfl rfl
  have ran := (faithful.runs f 63 rebound last rfl _ _ comes 0).1
  rw [routine] at ran
  refine ⟨program_rebinding, room, f, one, other, value, by rw [routine]; rfl, ran.trans ?_,
    first.trans second.symm, ?_, fun same => apart ((faithful.distinct one other).mp same)⟩
  · rfl
  · exact Bool.eq_false_iff.mpr fun equal => apart ((faithful.equal one other).mp equal)

end ScriptCore
