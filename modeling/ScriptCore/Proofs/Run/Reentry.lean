import Mathlib.Data.Set.Finite.Lattice
import Mathlib.Logic.Relation
import ScriptCore.Proofs.Run.Depth
import ScriptCore.Proofs.Run.Frameless
import ScriptCore.Proofs.Run.Methods
import ScriptCore.Proofs.Run.Natives

/-!
# Calls that make calls themselves

A native function or a type that is called may make calls itself: of `__init__`,
`__len__` or `__add__`.  Each call makes finitely many, and what it makes is a part of
its run: it enters no more functions and needs no deeper nesting than the whole.
-/

namespace ScriptCore

namespace Run

/-- A call, and the machine in which it is made. -/
structure Site where
  machine : Machine
  callee : Value
  arguments : Arguments

/-- The call, if calls may be nested so deep. -/
def Site.body (site : Site) (depth : Nat) : Computation Machine Value :=
  Machine.call depth site.callee site.arguments

/-! ## Calls that natives and types make -/

/-- The machine with a new instance of a class. -/
def withInstance (machine : Machine) (type : TypeId) : Machine :=
  { machine with world := (machine.world.allocate (machine.world.heap.newInstance type)).2 }

/-- What is summed, and what the sum starts from. -/
inductive Summands : List Value → Value → Value → Prop where
  | plain (sequence : Value) : Summands [sequence] sequence (.int 0)
  | from (sequence start : Value) : Summands [sequence, start] sequence start

/-- What a sum has come to, in which machine, and what is still to be added. -/
structure Summing where
  machine : Machine
  total : Value
  remaining : List Value

/-- The call is that of a sum, which begins so. -/
inductive Sums : Site → Summing → Prop where
  | sum {machine : Machine} {callee sequence start : Value} {arguments given : Arguments}
      {native : Native} {items : List Value}
      (called : Machine.unbind callee arguments = (.native native, given))
      (body : Machine.nativeBody native given machine.world = .ok .sum)
      (summands : Summands given.positional sequence start)
      (listed : machine.world.heap.sequence? sequence = some items) :
      Sums ⟨machine, callee, arguments⟩ ⟨machine, start, items⟩

/-- The sum goes on by one item. -/
inductive Adds (depth : Nat) : Summing → Summing → Prop where
  | add {machine after : Machine} {total item next : Value} {rest : List Value}
      (ran : ((Machine.call depth).fast "__add__" [total, item]).run machine =
        (.value next, after)) :
      Adds depth ⟨machine, total, item :: rest⟩ ⟨after, next, rest⟩

/-- The first call makes the second one itself, if that may be nested so deep. -/
inductive Reenters (depth : Nat) : Site → Site → Prop where
  /-- A class calls its `__init__` on the new instance. -/
  | init {machine : Machine} {callee init : Value} {arguments given : Arguments} {type : TypeId}
      (called : Machine.unbind callee arguments = (.type type, given))
      (notError : machine.world.types.isSubtype type .exception = false)
      (user : type.isBuiltin = false)
      (defined : machine.world.types.resolve type "__init__" = some init) :
      Reenters depth ⟨machine, callee, arguments⟩
        ⟨withInstance machine type, .boundMethod (machine.world.heap.newInstance type).1 init,
          given⟩
  /-- The length of anything but a string or a tuple is what its `__len__` gives. -/
  | length {machine : Machine} {callee value found : Value} {arguments given : Arguments}
      {native : Native} (called : Machine.unbind callee arguments = (.native native, given))
      (body : Machine.nativeBody native given machine.world = .ok .length)
      (single : given.positional = [value]) (notText : ∀ text, value ≠ .str text)
      (notTuple : ∀ items, value ≠ .tuple items)
      (defined : machine.world.getAttribute value "__len__" = .ok found) :
      Reenters depth ⟨machine, callee, arguments⟩ ⟨machine, found, {}⟩
  /-- A sum calls the `__add__` of what it has come to on the next item. -/
  | add {site : Site} {first : Summing} {machine : Machine} {total item found : Value}
      {rest : List Value} (sums : Sums site first)
      (adds : Relation.ReflTransGen (Adds depth) first ⟨machine, total, item :: rest⟩)
      (defined : machine.world.types.resolve total.typeOf "__add__" = some found) :
      Reenters depth site ⟨machine, found, .ofList [total, item]⟩

/-- The first call makes the second one itself. -/
def Reentry (caller callee : Site) : Prop := ∃ depth, Reenters depth caller callee

/-! ## Runs that come to an end -/

/-- A run that does not need more nested calls than it may make. -/
def Ends {σ α : Type} (body : Computation σ α) (start : σ) : Prop :=
  (body.run start).1 ≠ .outOfFuel

/-- The call ends when calls may be nested so deep. -/
def Site.EndsWithin (site : Site) (depth : Nat) : Prop := Ends (site.body depth) site.machine

section Sequences

variable {σ α β : Type} {body other : Computation σ α} {next : α → Computation σ β}
  {start middle : σ}

theorem Ends.of_agree (ends : Ends body start) (agree : body.Agree other start) :
    Ends other start := by
  rw [Ends, ← agree.1]
  exact ends

theorem ends_of_value {a : α} (gave : body.run start = (.value a, middle)) : Ends body start := by
  rw [Ends, gave]
  exact nofun

theorem ends_inspect (look : σ → Except Error α) (start : σ) : Ends (.inspect look) start :=
  Outcome.ofExcept_ne_outOfFuel (look start)

theorem ends_update (step : World → Except Error (α × World)) (machine : Machine) :
    Ends (Machine.update step) machine := by
  simp only [Ends, Machine.update, Computation.update]
  cases step machine.world with
  | ok result => simp only [Except.map, ne_eq, reduceCtorEq, not_false_eq_true]
  | error error => simp only [Except.map, ne_eq, reduceCtorEq, not_false_eq_true]

theorem Ends.bind (before : Ends body start)
    (after : ∀ a middle, body.run start = (.value a, middle) → Ends (next a) middle) :
    Ends (body >>= next) start := by
  change ((Computation.bind body next).run start).1 ≠ _
  simp only [Computation.bind]
  cases ended : body.run start with
  | mk outcome middle =>
      cases outcome with
      | value a => exact after a middle ended
      | raised error => simp
      | broken defect => simp
      | outOfFuel => exact absurd (congrArg Prod.fst ended) before

theorem Ends.of_bind (ends : Ends (body >>= next) start) : Ends body start := fun out =>
  ends (congrArg Prod.fst (Computation.run_bind_of_outOfFuel (Prod.ext out rfl) next))

theorem Ends.after_value {a : α} (ends : Ends (body >>= next) start)
    (gave : body.run start = (.value a, middle)) : Ends (next a) middle := by
  rw [Ends, Computation.run_bind_of_value gave] at ends
  exact ends

theorem inspect_eq_value {look : σ → Except Error α} {a : α}
    (gave : (Computation.inspect look).run start = (.value a, middle)) :
    look start = .ok a ∧ middle = start := by
  simp only [Computation.inspect, Prod.mk.injEq] at gave
  obtain ⟨outcome, same⟩ := gave
  cases found : look start with
  | ok b =>
      rw [found] at outcome
      cases outcome
      exact ⟨rfl, same.symm⟩
  | error error =>
      rw [found] at outcome
      cases outcome

end Sequences

/-! ## What is in a run -/

/-- A property of runs that the parts of a sequence inherit from the whole. -/
structure Hereditary (holds : ∀ {α : Type}, Computation Machine α → Machine → Prop) : Prop where
  agree : ∀ {α : Type} {body other : Computation Machine α} {machine : Machine},
    holds body machine → body.Agree other machine → holds other machine
  first : ∀ {α β : Type} {body : Computation Machine α} {next : α → Computation Machine β}
    {machine : Machine}, holds (body >>= next) machine → holds body machine
  rest : ∀ {α β : Type} {body : Computation Machine α} {next : α → Computation Machine β}
    {machine middle : Machine} {a : α}, holds (body >>= next) machine →
    body.run machine = (.value a, middle) → holds (next a) middle

theorem hereditary_frameless : Hereditary @Frameless :=
  ⟨Frameless.of_agree, Frameless.of_bind, Frameless.after_value⟩

theorem hereditary_ends : Hereditary (@Ends Machine) :=
  ⟨Ends.of_agree, Ends.of_bind, Ends.after_value⟩

theorem runNative_of_summands {values : List Value} {sequence start : Value} (call : Caller)
    (summands : Summands values sequence start) :
    Machine.runNative call .sum values = Machine.sum call sequence start := by
  cases summands <;> rfl

section Parts

variable {depth : Nat} {machine : Machine} {callee : Value} {arguments given : Arguments}

theorem body_of_unbind {target : Value} (called : Machine.unbind callee arguments = (target, given))
    (depth : Nat) : Site.body ⟨machine, callee, arguments⟩ (depth + 1) =
      Machine.callUnbound (Machine.call depth) target given := by
  simp only [Site.body, Machine.call, called]

theorem agree_sum {call : Caller} {sequence start : Value} {items : List Value}
    (listed : machine.world.heap.sequence? sequence = some items) :
    (Machine.sum call sequence start).Agree (Machine.total call start items) machine :=
  Computation.agree_inspect_bind_of_ok _ (by rw [listed]) _

theorem agree_construct (call : Caller) (type : TypeId) (arguments : Arguments)
    (machine : Machine) :
    (Machine.construct call type arguments).Agree
      (if machine.world.types.isSubtype type .exception then Machine.constructError type arguments
        else if type.isBuiltin then Machine.constructBuiltin type arguments
        else Machine.constructInstance call type arguments) machine :=
  Computation.agree_inspect_bind_of_ok Except.ok rfl _

theorem agree_construct_of_user (call : Caller) {type : TypeId}
    (notError : machine.world.types.isSubtype type .exception = false)
    (user : type.isBuiltin = false) (arguments : Arguments) :
    (Machine.construct call type arguments).Agree
      (Machine.constructInstance call type arguments) machine := by
  have agree := agree_construct call type arguments machine
  rw [if_neg (Bool.eq_false_iff.mp notError), if_neg (Bool.eq_false_iff.mp user)] at agree
  exact agree

variable {holds : ∀ {α : Type}, Computation Machine α → Machine → Prop}
  (hereditary : Hereditary @holds)

include hereditary

/-- The sum that a call makes is a part of the call. -/
theorem Hereditary.total {site : Site} {first : Summing} (sums : Sums site first)
    (held : holds (site.body (depth + 1)) site.machine) :
    holds (Machine.total (Machine.call depth) first.total first.remaining) first.machine := by
  cases sums with
  | sum called body summands listed =>
      rw [body_of_unbind called] at held
      have sum := hereditary.agree held (Machine.callNative_of_body body (Machine.call depth))
      rw [runNative_of_summands _ summands] at sum
      exact hereditary.agree sum (agree_sum listed)

theorem Hereditary.adds {earlier later : Summing}
    (adds : Relation.ReflTransGen (Adds depth) earlier later)
    (held : holds (Machine.total (Machine.call depth) earlier.total earlier.remaining)
      earlier.machine) :
    holds (Machine.total (Machine.call depth) later.total later.remaining) later.machine := by
  induction adds with
  | refl => exact held
  | tail _ last ih =>
      cases last with
      | @add middle _ total item _ rest ran =>
          have sequence : holds ((Machine.call depth).fast "__add__" [total, item] >>=
            fun next => Machine.total (Machine.call depth) next rest) middle := ih
          have after := hereditary.rest sequence ran
          exact after

/-- A call that is made by another one is a part of it. -/
theorem Hereditary.reenters {caller callee : Site} (reenters : Reenters depth caller callee)
    (held : holds (caller.body (depth + 1)) caller.machine) :
    holds (callee.body depth) callee.machine := by
  cases reenters with
  | @init machine _ init _ given type called notError user defined =>
      rw [body_of_unbind called] at held
      have made := hereditary.agree held (agree_construct_of_user _ notError user given)
      have instanced : (Machine.update fun world =>
          .ok (world.allocate (world.heap.newInstance type))).run machine =
            (.value (machine.world.heap.newInstance type).1, withInstance machine type) := rfl
      have looked : (Computation.inspect fun machine : Machine =>
          .ok (machine.world.types.resolve type "__init__")).run (withInstance machine type) =
            (.value (some init), withInstance machine type) := by
        rw [← defined]
        rfl
      have resolving := hereditary.rest made instanced
      have start := hereditary.rest resolving looked
      exact hereditary.first start
  | @length machine _ value found _ given native called body single notText notTuple defined =>
      rw [body_of_unbind called] at held
      have run := hereditary.agree held (Machine.callNative_of_body body (Machine.call depth))
      rw [single] at run
      have length : Machine.runNative (Machine.call depth) .length [value] =
          Machine.length (Machine.call depth) value := rfl
      rw [length, Machine.length] at run
      · exact hereditary.agree (hereditary.first run) (Caller.method_of_found defined {})
      · exact notText
      · exact notTuple
  | @add _ first machine total item found rest sums adds defined =>
      have whole := hereditary.adds adds (hereditary.total sums held)
      exact hereditary.agree (hereditary.first whole) (Caller.fast_of_resolved defined [item])

end Parts

/-! ## Calls that may be nested deeper -/

section Depths

variable {depth other : Nat} {earlier later : Summing} {caller callee : Site}

theorem deepens_fast (more : depth ≤ other) (name : Name) (values : List Value) :
    Deepens ((Machine.call depth).fast name values) ((Machine.call other).fast name values) :=
  deepens_perform (deepens_call more) (.fast name) values

/-- Calls that come to an end do so alike. -/
theorem fast_unique {name : Name} {values : List Value} {machine : Machine}
    (ends : Ends ((Machine.call depth).fast name values) machine)
    (alsoEnds : Ends ((Machine.call other).fast name values) machine) :
    ((Machine.call depth).fast name values).run machine =
      ((Machine.call other).fast name values).run machine := by
  rcases Nat.le_total depth other with more | more
  · exact (deepens_fast more name values machine ends).1.symm
  · exact (deepens_fast more name values machine alsoEnds).1

theorem Adds.mono (more : depth ≤ other) (adds : Adds depth earlier later) :
    Adds other earlier later := by
  cases adds with
  | add ran => exact .add ((deepens_fast more "__add__" _ _ (ends_of_value ran)).1.trans ran)

/-- How deep calls may be nested matters to sums only. -/
theorem Reenters.of_adds (reenters : Reenters depth caller callee)
    (sums : ∀ first later, Sums caller first → Relation.ReflTransGen (Adds depth) first later →
      Relation.ReflTransGen (Adds other) first later) : Reenters other caller callee := by
  cases reenters with
  | init called notError user defined => exact .init called notError user defined
  | length called body single notText notTuple defined =>
      exact .length called body single notText notTuple defined
  | add begins adds defined => exact .add begins (sums _ _ begins adds) defined

theorem Reenters.mono (more : depth ≤ other) (reenters : Reenters depth caller callee) :
    Reenters other caller callee :=
  reenters.of_adds fun _ _ _ adds => Relation.ReflTransGen.mono (fun _ _ => Adds.mono more) _ _ adds

/-- A sum that comes to an end goes on in the one way in which it may. -/
theorem adds_of_ends (adds : Relation.ReflTransGen (Adds other) earlier later)
    (ends : Ends (Machine.total (Machine.call depth) earlier.total earlier.remaining)
      earlier.machine) : Relation.ReflTransGen (Adds depth) earlier later := by
  induction adds with
  | refl => exact .refl
  | tail _ last ih =>
      cases last with
      | @add machine _ total item _ rest ran =>
          have reached := hereditary_ends.adds ih ends
          have added : Ends ((Machine.call depth).fast "__add__" [total, item]) machine :=
            reached.of_bind
          exact ih.tail (.add ((fast_unique added (ends_of_value ran)).trans ran))

/-- What a call that ends makes itself ends one level further down. -/
theorem Reentry.endsWithin (reentry : Reentry caller callee)
    (ends : caller.EndsWithin (depth + 1)) : callee.EndsWithin depth := by
  obtain ⟨other, reenters⟩ := reentry
  have here : Reenters depth caller callee := reenters.of_adds fun first later sums adds =>
    adds_of_ends adds (hereditary_ends.total sums ends)
  exact hereditary_ends.reenters here ends

end Depths

/-! ## How many calls a call makes -/

theorem Summands.unique {values : List Value} {sequence start other base : Value}
    (summands : Summands values sequence start) (again : Summands values other base) :
    sequence = other ∧ start = base := by
  cases summands <;> cases again <;> exact ⟨rfl, rfl⟩

theorem Sums.unique {site : Site} {first second : Summing} (sums : Sums site first)
    (again : Sums site second) : first = second := by
  cases sums with
  | sum called body summands listed =>
      cases again with
      | sum same _ also found =>
          cases called.symm.trans same
          obtain ⟨rfl, rfl⟩ := summands.unique also
          cases listed.symm.trans found
          rfl

theorem Adds.unique {depth other : Nat} {earlier later last : Summing}
    (adds : Adds depth earlier later) (again : Adds other earlier last) : later = last := by
  cases adds with
  | add ran =>
      cases again with
      | add same =>
          have equal := fast_unique (ends_of_value ran) (ends_of_value same)
          cases ran.symm.trans (equal.trans same)
          rfl

/-- A sum comes to one total after the other, as many as there are items. -/
theorem finite_summing (start : Summing) :
    {later | ∃ depth, Relation.ReflTransGen (Adds depth) start later}.Finite := by
  obtain ⟨machine, total, remaining⟩ := start
  induction remaining generalizing machine total with
  | nil =>
      refine (Set.finite_singleton ⟨machine, total, []⟩).subset ?_
      rintro later ⟨depth, adds⟩
      rcases adds.cases_head with rfl | ⟨middle, step, _⟩
      · rfl
      · cases step
  | cons item rest ih =>
      by_cases goes : ∃ depth middle, Adds depth ⟨machine, total, item :: rest⟩ middle
      · obtain ⟨depth, _, first⟩ := goes
        cases first with
        | @add _ after _ _ next _ ran =>
            refine ((ih after next).insert ⟨machine, total, item :: rest⟩).subset ?_
            rintro later ⟨other, adds⟩
            rcases adds.cases_head with rfl | ⟨middle, step, more⟩
            · exact Set.mem_insert _ _
            · cases (Adds.add ran).unique step
              exact .inr ⟨other, more⟩
      · refine (Set.finite_singleton ⟨machine, total, item :: rest⟩).subset ?_
        rintro later ⟨other, adds⟩
        rcases adds.cases_head with rfl | ⟨middle, step, _⟩
        · rfl
        · exact absurd ⟨other, middle, step⟩ goes

/-- What is called for the next item is the method of the total. -/
theorem finite_added (summing : Summing) :
    {next : Site | ∃ item rest found, summing.remaining = item :: rest ∧
      summing.machine.world.types.resolve summing.total.typeOf "__add__" = some found ∧
        next = ⟨summing.machine, found, .ofList [summing.total, item]⟩}.Finite := by
  refine Set.Subsingleton.finite ?_
  rintro first ⟨item, rest, found, items, defined, rfl⟩ second ⟨_, _, _, same, again, rfl⟩
  cases items.symm.trans same
  cases defined.symm.trans again
  rfl

/-- A call makes finitely many calls itself. -/
theorem finite_reentry (site : Site) : {next | Reentry site next}.Finite := by
  by_cases sum : ∃ first, Sums site first
  · obtain ⟨first, sums⟩ := sum
    have finite := (finite_summing first).biUnion fun summing _ => finite_added summing
    refine finite.subset ?_
    rintro next ⟨depth, reenters⟩
    cases sums with
    | sum called body summands listed =>
        cases reenters with
        | init other => cases called.symm.trans other
        | length other found =>
            cases called.symm.trans other
            cases body.symm.trans found
        | add again adds defined =>
            cases (Sums.sum called body summands listed).unique again
            exact Set.mem_biUnion ⟨depth, adds⟩ ⟨_, _, _, rfl, defined, rfl⟩
  · refine Set.Subsingleton.finite ?_
    rintro first ⟨_, one⟩ second ⟨_, two⟩
    cases one with
    | init here _ _ defined =>
        cases two with
        | init there _ _ again =>
            cases here.symm.trans there
            cases defined.symm.trans again
            rfl
        | length there => cases here.symm.trans there
        | add sums => exact absurd ⟨_, sums⟩ sum
    | length here body single _ _ defined =>
        cases two with
        | init there => cases here.symm.trans there
        | length there _ same _ _ again =>
            cases here.symm.trans there
            cases single.symm.trans same
            cases defined.symm.trans again
            rfl
        | add sums => exact absurd ⟨_, sums⟩ sum
    | add sums => exact absurd ⟨_, sums⟩ sum

end Run

end ScriptCore
