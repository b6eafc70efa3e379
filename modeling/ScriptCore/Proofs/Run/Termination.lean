import Mathlib.Order.Lattice.Nat
import Mathlib.Order.WellFounded
import ScriptCore.Proofs.Run.Interpreter
import ScriptCore.Proofs.Run.Reentry
import ScriptCore.Session

/-!
# The end of calls that enter no user function

Calls that natives and types make themselves stand on no call stack, so no limit ends
them.  A call that enters no user function comes to an end exactly if the calls that it
leads to can be ranked, each below the one that makes it.  Where they cannot, one call is
made from within the other for ever, and a class whose `__len__` is `len` is enough.
-/

namespace ScriptCore

namespace Run

/-- Of the calls that this one leads to, each ranks below the one that makes it. -/
def Ranked (rank : Site → Nat) (site : Site) : Prop :=
  ∀ caller callee, Relation.ReflTransGen Reentry site caller → Reentry caller callee →
    rank callee < rank caller

theorem Ranked.next {rank : Site → Nat} {caller callee : Site} (ranked : Ranked rank caller)
    (reentry : Reentry caller callee) : Ranked rank callee :=
  fun inner last leads => ranked inner last (.head reentry leads)

/-- The call comes to an end, with a value or with an error, however deep calls may be nested. -/
def Site.Ends (site : Site) : Prop :=
  ∃ least result last, ∀ depth, least ≤ depth →
    (site.body depth).run site.machine = (.ofExcept result, last)

/-! ## One level up -/

section Below

variable {depth : Nat} {machine : Machine} {callee : Value} {arguments given : Arguments}
  (below : ∀ next, Reenters depth ⟨machine, callee, arguments⟩ next →
    Frameless (next.body depth) next.machine → next.EndsWithin depth)

include below

theorem ends_length {native : Native} {value : Value}
    (called : Machine.unbind callee arguments = (.native native, given))
    (body : Machine.nativeBody native given machine.world = .ok .length)
    (single : given.positional = [value])
    (frameless : Frameless (Machine.length (Machine.call depth) value) machine) :
    Ends (Machine.length (Machine.call depth) value) machine := by
  revert frameless
  unfold Machine.length
  split
  · exact fun _ => nofun
  · exact fun _ => nofun
  · next notText notTuple =>
      intro frameless
      have found : Ends ((Machine.call depth).method value "__len__" {}) machine := by
        cases looked : machine.world.getAttribute value "__len__" with
        | error error =>
            exact (ends_inspect _ machine).of_agree (Caller.method_of_missing looked {}).symm
        | ok found =>
            have agree : ((Machine.call depth).method value "__len__" {}).Agree
                (Machine.call depth found {}) machine := Caller.method_of_found looked {}
            have ends := below _ (.length called body single notText notTuple looked)
              (frameless.of_bind.of_agree agree)
            exact ends.of_agree agree.symm
      refine found.bind fun result middle _ => ?_
      split
      · exact nofun
      · exact ends_inspect _ _

/-- However far a sum has come, it comes to its end. -/
theorem ends_total {first : Summing} (sums : Sums ⟨machine, callee, arguments⟩ first)
    {after : Machine} {total : Value} {remaining : List Value}
    (adds : Relation.ReflTransGen (Adds depth) first ⟨after, total, remaining⟩)
    (frameless : Frameless (Machine.total (Machine.call depth) total remaining) after) :
    Ends (Machine.total (Machine.call depth) total remaining) after := by
  induction remaining generalizing total after with
  | nil => exact nofun
  | cons item rest ih =>
      have added : Ends ((Machine.call depth).fast "__add__" [total, item]) after := by
        cases resolved : after.world.types.resolve total.typeOf "__add__" with
        | none =>
            exact (ends_inspect _ after).of_agree (Caller.fast_of_unresolved resolved [item]).symm
        | some found =>
            have agree : ((Machine.call depth).fast "__add__" [total, item]).Agree
                (Machine.call depth found (.ofList [total, item])) after :=
              Caller.fast_of_resolved resolved [item]
            have ends := below _ (.add sums adds resolved)
              (frameless.of_bind.of_agree agree)
            exact ends.of_agree agree.symm
      exact added.bind fun next last gave =>
        ih (adds.tail (.add gave)) (frameless.after_value gave)

theorem ends_sum {native : Native} {sequence start : Value}
    (called : Machine.unbind callee arguments = (.native native, given))
    (body : Machine.nativeBody native given machine.world = .ok .sum)
    (summands : Summands given.positional sequence start)
    (frameless : Frameless (Machine.sum (Machine.call depth) sequence start) machine) :
    Ends (Machine.sum (Machine.call depth) sequence start) machine := by
  refine (ends_inspect _ machine).bind fun items middle gave => ?_
  have inner := frameless.after_value gave
  obtain ⟨found, rfl⟩ := inspect_eq_value gave
  split at found
  · next listed =>
      cases found
      exact ends_total below (.sum called body summands listed) .refl inner
  · cases found

theorem ends_callNative {native : Native}
    (called : Machine.unbind callee arguments = (.native native, given))
    (frameless : Frameless (Machine.callNative (Machine.call depth) native given) machine) :
    Ends (Machine.callNative (Machine.call depth) native given) machine := by
  refine (ends_inspect _ machine).bind fun builtin middle gave => ?_
  have inner := frameless.after_value gave
  obtain ⟨body, rfl⟩ := inspect_eq_value gave
  generalize positional : given.positional = values at inner ⊢
  revert inner
  unfold Machine.runNative
  split
  · exact ends_length below called body positional
  · exact fun _ => ends_inspect _ _
  · next sequence => exact ends_sum below called body (positional ▸ .plain sequence)
  · next sequence start => exact ends_sum below called body (positional ▸ .from sequence start)
  · exact fun _ => ends_inspect _ _
  · exact fun _ => ends_update _ _

theorem ends_constructInstance {type : TypeId}
    (called : Machine.unbind callee arguments = (.type type, given))
    (notError : machine.world.types.isSubtype type .exception = false)
    (user : type.isBuiltin = false)
    (frameless : Frameless (Machine.constructInstance (Machine.call depth) type given) machine) :
    Ends (Machine.constructInstance (Machine.call depth) type given) machine := by
  refine (ends_update _ machine).bind fun value made gave => ?_
  have inner := frameless.after_value gave
  cases gave
  refine (ends_inspect _ _).bind fun init middle gave => ?_
  have starting := inner.after_value gave
  obtain ⟨found, rfl⟩ := inspect_eq_value gave
  have defined : machine.world.types.resolve type "__init__" = init := Except.ok.inj found
  cases init with
  | none => exact nofun
  | some init =>
      have ends := below _ (.init called notError user defined) starting.of_bind
      exact Ends.bind ends fun _ _ _ => nofun

theorem ends_construct {type : TypeId}
    (called : Machine.unbind callee arguments = (.type type, given))
    (frameless : Frameless (Machine.construct (Machine.call depth) type given) machine) :
    Ends (Machine.construct (Machine.call depth) type given) machine := by
  refine (ends_inspect _ machine).bind fun same middle gave => ?_
  have inner := frameless.after_value gave
  obtain ⟨found, rfl⟩ := inspect_eq_value gave
  cases found
  revert inner
  split
  · exact fun _ => ends_update _ _
  · next notError =>
      split
      · exact fun _ => ends_update _ _
      · next user =>
          exact ends_constructInstance below called (Bool.eq_false_of_not_eq_true notError)
            (Bool.eq_false_of_not_eq_true user)

theorem ends_callUnbound {target : Value}
    (called : Machine.unbind callee arguments = (target, given))
    (frameless : Frameless (Machine.callUnbound (Machine.call depth) target given) machine) :
    Ends (Machine.callUnbound (Machine.call depth) target given) machine := by
  revert frameless
  unfold Machine.callUnbound
  split
  · intro frameless
    refine (ends_inspect _ machine).bind fun function middle gave => ?_
    have inner := frameless.after_value gave
    obtain ⟨_, rfl⟩ := inspect_eq_value gave
    cases pushed : middle.calls.push function.name with
    | ok calls => exact absurd inner (not_frameless_within pushed)
    | error error =>
        rw [Ends, Machine.callFunction, (within_of_refused _ pushed).1]
        exact Outcome.ofExcept_ne_outOfFuel (.error _)
  · exact ends_callNative below called
  · exact ends_construct below called
  · exact fun _ => ends_inspect _ _

end Below

/-- A frameless call ends one level above all that it makes itself. -/
theorem Site.endsWithin_succ {site : Site} {depth : Nat}
    (frameless : Frameless (site.body (depth + 1)) site.machine)
    (below : ∀ next, Reenters depth site next → Frameless (next.body depth) next.machine →
      next.EndsWithin depth) : site.EndsWithin (depth + 1) :=
  ends_callUnbound below rfl frameless

theorem Site.EndsWithin.mono {site : Site} {depth deeper : Nat} (more : depth ≤ deeper)
    (ends : site.EndsWithin depth) : site.EndsWithin deeper := by
  rw [EndsWithin, Run.Ends, body, (deepens_call more _ _ site.machine ends).1]
  exact ends

/-- A call that ends with some nesting gives the same with every greater one. -/
theorem Site.EndsWithin.exists_result {site : Site} {least : Nat} (ends : site.EndsWithin least) :
    ∃ result last, ∀ depth, least ≤ depth →
      (site.body depth).run site.machine = (.ofExcept result, last) := by
  have lawful := (composed_call least site.callee site.arguments).sound site.machine
  rcases lawful.exists_result with ⟨result, ended⟩ | ended
  · refine ⟨result, ((site.body least).run site.machine).2, fun depth more => ?_⟩
    exact (deepens_call more site.callee site.arguments site.machine ends).1.trans ended
  · exact absurd (congrArg Prod.fst ended) ends

theorem Site.ends_iff {site : Site} : site.Ends ↔ ∃ depth, site.EndsWithin depth := by
  constructor
  · rintro ⟨least, result, last, gives⟩
    refine ⟨least, ?_⟩
    rw [EndsWithin, Run.Ends, gives least (Nat.le_refl _)]
    exact Outcome.ofExcept_ne_outOfFuel result
  · rintro ⟨least, ends⟩
    exact ⟨least, ends.exists_result⟩

/-! ## Ranks -/

/-- What ranks below the depth comes to an end. -/
theorem endsWithin_of_ranked {rank : Site → Nat} {depth : Nat} {site : Site}
    (ranked : Ranked rank site) (frameless : Frameless (site.body depth) site.machine)
    (lower : rank site < depth) : site.EndsWithin depth := by
  induction depth generalizing site with
  | zero => cases lower
  | succ depth ih =>
      refine Site.endsWithin_succ frameless fun next reenters inner => ?_
      have reentry : Reentry site next := ⟨depth, reenters⟩
      have below := ranked _ _ .refl reentry
      exact ih (ranked.next reentry) inner
        (Nat.lt_of_lt_of_le below (Nat.le_of_lt_succ lower))

/-- The least nesting with which the call ends. -/
noncomputable def Site.nesting (site : Site) : Nat := sInf {depth | site.EndsWithin depth}

theorem Site.EndsWithin.nesting {site : Site} {depth : Nat} (ends : site.EndsWithin depth) :
    site.EndsWithin site.nesting :=
  show site.nesting ∈ {depth | site.EndsWithin depth} from Nat.sInf_mem ⟨depth, ends⟩

/-- A call that ends is nested deeper than all that it makes itself. -/
theorem Reentry.nesting_lt {caller callee : Site} (reentry : Reentry caller callee)
    (ends : caller.EndsWithin caller.nesting) :
    callee.nesting < caller.nesting ∧ callee.EndsWithin callee.nesting := by
  cases least : caller.nesting with
  | zero =>
      rw [least] at ends
      exact absurd rfl ends
  | succ depth =>
      rw [least] at ends
      have below := reentry.endsWithin ends
      exact ⟨Nat.lt_succ_of_le (Nat.sInf_le below), below.nesting⟩

theorem ranked_nesting {site : Site} (ends : site.EndsWithin site.nesting) :
    Ranked Site.nesting site := by
  intro caller callee leads reentry
  have callerEnds : caller.EndsWithin caller.nesting := by
    clear reentry
    induction leads with
    | refl => exact ends
    | tail _ last ih => exact (last.nesting_lt ih).2
  exact (reentry.nesting_lt callerEnds).1

/-- Once calls may be nested deep enough, no user function is entered. -/
def Site.EventuallyFrameless (site : Site) : Prop :=
  ∃ least, ∀ depth, least ≤ depth → Frameless (site.body depth) site.machine

theorem Reentry.eventuallyFrameless {caller callee : Site} (reentry : Reentry caller callee)
    (frameless : caller.EventuallyFrameless) : callee.EventuallyFrameless := by
  obtain ⟨first, reenters⟩ := reentry
  obtain ⟨least, quiet⟩ := frameless
  refine ⟨max first least, fun depth more => ?_⟩
  obtain ⟨deeper, enough⟩ := Nat.max_le.mp more
  exact hereditary_frameless.reenters (reenters.mono deeper) (quiet _ (Nat.le_succ_of_le enough))

/-- A call that makes finitely many calls ends above all of them if they end. -/
theorem ends_of_acc {site : Site} (founded : Acc (fun next caller => Reentry caller next) site)
    (frameless : site.EventuallyFrameless) : site.EndsWithin site.nesting := by
  induction founded with
  | intro site _ ih =>
      obtain ⟨bound, below⟩ := ((finite_reentry site).image Site.nesting).bddAbove
      have ⟨least, quiet⟩ := frameless
      have enough : least ≤ max least bound + 1 := Nat.le_succ_of_le (Nat.le_max_left _ _)
      refine (Site.endsWithin_succ (quiet _ enough) fun next reenters _ => ?_).nesting
      have reentry : Reentry site next := ⟨_, reenters⟩
      have ends := ih next reentry (reentry.eventuallyFrameless frameless)
      exact ends.mono (Nat.le_trans (below ⟨next, reentry, rfl⟩) (Nat.le_max_right _ _))

theorem acc_of_ends {site : Site} (ends : site.EndsWithin site.nesting) :
    Acc (fun next caller => Reentry caller next) site := by
  induction least : site.nesting using Nat.strong_induction_on generalizing site with
  | _ depth ih =>
      refine .intro site fun next reentry => ?_
      obtain ⟨lower, below⟩ := reentry.nesting_lt ends
      exact ih next.nesting (least ▸ lower) below rfl

/-! ## When a call ends -/

section Ends

variable {site : Site} (frameless : ∀ depth, Frameless (site.body depth) site.machine)

include frameless

theorem Site.ends_iff_ranked : site.Ends ↔ ∃ rank, Ranked rank site := by
  rw [Site.ends_iff]
  constructor
  · rintro ⟨depth, ends⟩
    exact ⟨Site.nesting, ranked_nesting ends.nesting⟩
  · rintro ⟨rank, ranked⟩
    exact ⟨_, endsWithin_of_ranked ranked (frameless _) (Nat.lt_succ_self _)⟩

theorem Site.ends_iff_acc :
    site.Ends ↔ Acc (fun next caller => Reentry caller next) site := by
  rw [Site.ends_iff]
  constructor
  · rintro ⟨depth, ends⟩
    exact acc_of_ends ends.nesting
  · intro founded
    exact ⟨_, ends_of_acc founded ⟨0, fun depth _ => frameless depth⟩⟩

end Ends

/-! ## A class whose instances have no length -/

/-- What a program makes of a fresh machine with this limit. -/
def machineAfter (limit : Nat) (program : List Expr) : Machine :=
  (program.foldl (fun activation expr => (Session.step activation expr).2)
    (Session.start (some limit))).machine

/-- A class whose `__len__` is the native function `len`, and an instance of it. -/
def looping : Machine :=
  machineAfter 5
    [.apply (.make (.defineClass "C" ["__len__"]))
       [.literal .none, .apply (.names (.builtin "len")) []],
     .apply (.make (.object (.named "C") .plain)) []]

theorem looping_parents : ∀ index < looping.world.types.size,
    ∀ parent ∈ looping.world.types.parentOf ⟨index⟩, parent.index < index := by
  decide +kernel

theorem looping_chains (type : TypeId) :
    ∃ chain, Registry.Chain looping.world.types type chain :=
  Registry.exists_chain_of_parents_first fun type parent up =>
    .inl (looping_parents type.index up.lt_size parent up)

/-! ## Ranks decide -/

/-- What is known of the end of a call. -/
structure EndsAsRanked (site : Site) : Prop where
  /-- It comes to an end exactly if the calls that it leads to can be ranked. -/
  ends_iff : site.Ends ↔ ∃ rank, Ranked rank site
  /-- No call on its way is nested deeper than the rank says. -/
  bounded : ∀ rank, Ranked rank site → ∃ result last, ∀ depth, rank site < depth →
    (site.body depth).run site.machine = (.ofExcept result, last)
  /-- If it comes to no end, calls make calls for ever. -/
  endless : ¬site.Ends ↔ ∃ path : Nat → Site, path 0 = site ∧
    ∀ step, Reentry (path step) (path (step + 1))
  /-- Wherever it looks at the types on its way, it comes to the end of the walk. -/
  walks : ∀ depth, ∀ machine ∈ site.machine :: ((site.body depth).trail site.machine).map (·.state),
    WalksEnd machine.world.types

/--
A call that enters no user function in a machine in which all parent chains end comes to
an end, with a value or with an error, exactly if the special methods on its way rank below
what calls them; otherwise one is called from within the other for ever.
-/
theorem call_ends_iff_ranked (site : Site)
    (walks : ∀ type, ∃ chain, Registry.Chain site.machine.world.types type chain)
    (frameless : ∀ depth, Frameless (site.body depth) site.machine) : EndsAsRanked site where
  ends_iff := Site.ends_iff_ranked frameless
  bounded := fun rank ranked =>
    (endsWithin_of_ranked ranked (frameless _) (Nat.lt_succ_self _)).exists_result
  endless := by rw [Site.ends_iff_acc frameless, not_acc_iff_exists_descending_chain]
  walks := fun depth => walksEnd_of_frameless walks (frameless depth)

/-- The sum of two numbers, in the machine with the class. -/
def sumOfTwo : Site where
  machine := looping
  callee := .native ⟨"sum", none, some "sum(iterable[, start])", ⟨27⟩⟩
  arguments := .ofList [.tuple [.int 1, .int 2]]

theorem sumOfTwo_frameless (depth : Nat) : Frameless (sumOfTwo.body depth) looping := by
  have ran : (sumOfTwo.body 2).run looping = (.value (.int 3), looping) := rfl
  have ends : sumOfTwo.EndsWithin 2 := ends_of_value ran
  have trail : (sumOfTwo.body 2).trail looping = [⟨.change, looping⟩, ⟨.change, looping⟩] := rfl
  rcases Nat.lt_or_ge depth 2 with small | large
  · rcases Nat.le_one_iff_eq_zero_or_eq_one.mp (Nat.le_of_lt_succ small) with rfl | rfl
    · exact List.forall_mem_nil _
    · exact List.forall_mem_nil _
  · rw [Frameless, Site.body, (deepens_call large _ _ looping ends).2]
    change ∀ moment ∈ (sumOfTwo.body 2).trail looping, _
    rw [trail]
    have quiet (name : Name) : Event.change ≠ .enter name := by simp
    exact List.forall_mem_cons.mpr ⟨quiet, List.forall_mem_singleton.mpr quiet⟩

theorem call_ends_iff_ranked_sumOfTwo :
    (∀ type, ∃ chain, Registry.Chain looping.world.types type chain) ∧
      (∀ depth, Frameless (sumOfTwo.body depth) looping) ∧ EndsAsRanked sumOfTwo ∧
        (sumOfTwo.body 2).run looping = (.value (.int 3), looping) :=
  ⟨looping_chains, sumOfTwo_frameless,
    call_ends_iff_ranked sumOfTwo looping_chains sumOfTwo_frameless, rfl⟩

/-! ## A call that comes to no end -/

/-- If calling the `__len__` of an object comes to no end, neither does its length. -/
theorem length_of_outOfFuel {call : Caller} {machine : Machine} {id : Identity} {type : TypeId}
    {found : Value} (defined : machine.world.getAttribute (.object id type) "__len__" = .ok found)
    (run : (call found {}).run machine = (.outOfFuel, machine))
    (trail : (call found {}).trail machine = []) :
    (Machine.length call (.object id type)).run machine = (.outOfFuel, machine) ∧
      (Machine.length call (.object id type)).trail machine = [] := by
  have method : (call.method (.object id type) "__len__" {}).Agree (call found {}) machine :=
    Caller.method_of_found defined {}
  have ended := method.1.trans run
  refine ⟨Computation.run_bind_of_outOfFuel ended _, ?_⟩
  exact (Computation.trail_bind_of_ne_value (by rw [ended]; exact nofun) _).trans
    (method.2.trans trail)

/-- A native function that is the `__len__` of its argument is called again and again. -/
theorem length_calls_itself {machine : Machine} {native : Native} {id : Identity} {type : TypeId}
    (body : Machine.nativeBody native (.ofList [.object id type]) machine.world = .ok .length)
    (own : machine.world.getAttribute (.object id type) "__len__" =
      .ok (.boundMethod (.object id type) (.native native))) (depth : Nat) :
    (Machine.call depth (.native native) (.ofList [.object id type])).run machine =
        (.outOfFuel, machine) ∧
      (Machine.call depth (.native native) (.ofList [.object id type])).trail machine = [] := by
  induction depth with
  | zero => exact ⟨rfl, rfl⟩
  | succ depth ih =>
      have again := Machine.call_boundMethod depth (.object id type) (.native native) {}
      have length := length_of_outOfFuel own (again ▸ ih.1) (again ▸ ih.2)
      have called := Machine.callNative_of_body body (Machine.call depth)
      exact ⟨called.1.trans length.1, called.2.trans length.2⟩

/-- The native function `len` and the instance. -/
def len : Native := ⟨"len", some 1, some "len(obj) -> int", ⟨26⟩⟩

def instanceOfC : Value := .object ⟨0⟩ ⟨25⟩

/--
With a limit of five running functions, and with parent chains that end, the
length of an instance comes to no end.  No function of the program is entered.
-/
theorem length_of_instanceOfC_never_ends :
    looping.calls.limit = some 5 ∧ looping.world.builtins.get? "len" = some (.native len) ∧
      (∀ type, ∃ chain, Registry.Chain looping.world.types type chain) ∧
      ∀ depth,
        (∀ result, ((Machine.call depth (.native len) (.ofList [instanceOfC])).run looping).1 ≠
          .ofExcept result) ∧
        ∀ moment ∈ (Machine.call depth (.native len) (.ofList [instanceOfC])).trail looping,
          ∀ name, moment.event ≠ .enter name := by
  refine ⟨rfl, rfl, looping_chains, fun depth => ?_⟩
  have own : looping.world.getAttribute instanceOfC "__len__" =
      .ok (.boundMethod instanceOfC (.native len)) := rfl
  have body : Machine.nativeBody len (.ofList [instanceOfC]) looping.world = .ok .length := rfl
  obtain ⟨run, trail⟩ := length_calls_itself body own depth
  refine ⟨fun result ended => ?_, ?_⟩
  · have out := congrArg Prod.fst run
    exact Outcome.ofExcept_ne_outOfFuel result (ended.symm.trans out)
  · have none : (Machine.call depth (.native len) (.ofList [instanceOfC])).trail looping = [] :=
      trail
    rw [none]
    exact fun _ => nofun

end Run

end ScriptCore
