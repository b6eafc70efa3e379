import Mathlib.Data.Nat.Find
import ScriptCore.Proofs.Attributes.Assignment
import ScriptCore.Proofs.Number.Words
import ScriptCore.Proofs.Run.Methods
import ScriptCore.Proofs.Run.Natives

/-!
# Sums

A sum of integers is added up from the left in words.  It is the exact sum if every sum
on the way has a word; otherwise it fails at the first one that has none, even where the
items that come after it would lead back into the range.
-/

namespace ScriptCore

/-! ## Exact sums -/

/-- The whole number that an integer or a truth value counts for. -/
def Value.whole (value : Value) : Int := (value.asInt.getD 0).toInt

/-- The exact sum of a start and so many of the items. -/
def partialSum (start : Int) (items : List Value) (count : Nat) : Int :=
  (items.take count).foldl (fun sum item => sum + item.whole) start

/-- The sum of the start and of this many items, and one more, is the first that has no word. -/
structure FirstOverflow (start : Int) (items : List Value) (count : Nat) : Prop where
  within : count < items.length
  before : ∀ earlier ≤ count, Word.InRange (partialSum start items earlier)
  here : ¬Word.InRange (partialSum start items (count + 1))

section PartialSums

variable {start : Int} {item : Value} {items : List Value} {count : Nat}

theorem partialSum_zero : partialSum start items 0 = start := by
  rw [partialSum, List.take_zero, List.foldl_nil]

theorem partialSum_cons :
    partialSum start (item :: items) (count + 1) = partialSum (start + item.whole) items count := by
  rw [partialSum, partialSum, List.take_succ_cons, List.foldl_cons]

theorem partialSum_one : partialSum start (item :: items) 1 = start + item.whole := by
  rw [partialSum_cons, partialSum_zero]

/-- Every sum on the way has a word, or one of them is the first without. -/
theorem inRange_or_firstOverflow (inRange : Word.InRange start) (items : List Value) :
    (∀ count ≤ items.length, Word.InRange (partialSum start items count)) ∨
      ∃ count, FirstOverflow start items count := by
  by_cases fails : ∃ count, count ≤ items.length ∧ ¬Word.InRange (partialSum start items count)
  · obtain ⟨within, here⟩ := Nat.find_spec fails
    cases first : Nat.find fails with
    | zero =>
        rw [first, partialSum_zero] at here
        exact absurd inRange here
    | succ count =>
        rw [first] at within here
        refine .inr ⟨count, within, fun earlier below => ?_, here⟩
        have before : earlier < Nat.find fails := by omega
        have inside : earlier ≤ items.length := by omega
        exact Decidable.byContradiction fun outside => Nat.find_min fails before ⟨inside, outside⟩
  · refine .inl fun count within => ?_
    exact Decidable.byContradiction fun outside => fails ⟨count, within, outside⟩

/-- What comes after the first item overflows first where the whole does. -/
theorem FirstOverflow.tail (first : FirstOverflow start (item :: items) (count + 1)) :
    FirstOverflow (start + item.whole) items count where
  within := Nat.lt_of_succ_lt_succ first.within
  before earlier below := partialSum_cons ▸ first.before (earlier + 1) (Nat.succ_le_succ below)
  here := partialSum_cons ▸ first.here

end PartialSums

/-! ## Adding in words -/

/-- Integers are added by the built-in function. -/
structure World.AddsIntegers (world : World) (native : Native) : Prop where
  defined : world.types.ownCapability .int "__add__" = some (.native native)
  installed : world.Installed (.number .integer .add) (some 2) native

namespace Machine

variable {machine : Machine} {adder : Native} {start a b : Int64} {item : Value}
  {items : List Value} {count : Nat}

theorem run_add_integers {world : World} (adds : world.AddsIntegers adder)
    (whole : item.asInt = some b) :
    Arithmetic.run world .integer .add [.int a, item] =
      Arithmetic.exact "addition" (Word.add? a b) := by
  have known : world.types.isInstance (.int a) NumberKind.integer.type = true :=
    Registry.isSubtype_self (Registry.contains_of_ownCapability adds.defined)
  have first : (Value.int a).asInt = some a := rfl
  have operands : Arithmetic.operands world .integer (.int a) item = .ok (.integers a b) := by
    simp only [Arithmetic.operands, World.expectType, known, if_true, first, whole]
  simp only [Arithmetic.run, operands, Except.bind, Arithmetic.compute]

/-- Adding to an integer by the method of its type adds the words. -/
theorem fast_add (adds : machine.world.AddsIntegers adder) (whole : item.asInt = some b)
    (depth : Nat) :
    ((call (depth + 1)).fast "__add__" [.int a, item]).Agree
      (update fun world => (Arithmetic.exact "addition" (Word.add? a b)).map (·, world))
      machine := by
  have resolved : machine.world.types.resolve (Value.int a).typeOf "__add__" =
      some (.native adder) := Registry.resolve_of_ownCapability adds.defined
  refine (Caller.fast_of_resolved resolved [item]).trans ?_
  refine (call_simple adds.installed (by simp) trivial depth).trans (agree_update ?_)
  exact congrArg (·.map (·, machine.world)) (run_add_integers adds whole)

/-- What is raised where a sum has no word. -/
def overflow : Error := .ofCause (.arithmeticOverflow "addition")

theorem fast_add_of_some (adds : machine.world.AddsIntegers adder) (whole : item.asInt = some b)
    {sum : Int64} (added : Word.add? a b = some sum) (depth : Nat) :
    ((call (depth + 1)).fast "__add__" [.int a, item]).run machine = (.value (.int sum), machine) ∧
      ((call (depth + 1)).fast "__add__" [.int a, item]).trail machine = [⟨.change, machine⟩] := by
  have agree := fast_add (a := a) adds whole depth
  rw [added] at agree
  exact agree

theorem fast_add_of_none (adds : machine.world.AddsIntegers adder) (whole : item.asInt = some b)
    (failed : Word.add? a b = none) (depth : Nat) :
    ((call (depth + 1)).fast "__add__" [.int a, item]).run machine = (.raised overflow, machine) ∧
      ((call (depth + 1)).fast "__add__" [.int a, item]).trail machine =
        [⟨.raise overflow, machine⟩] := by
  have agree := fast_add (a := a) adds whole depth
  rw [failed] at agree
  exact agree

/-! ## Sums of sequences -/

/-- The computation gives the exact sum, or fails at the first partial sum without a word. -/
structure Sums (machine : Machine) (items : List Value) (start : Int64)
    (sum : Computation Machine Value) : Prop where
  exact : (∀ count ≤ items.length, Word.InRange (partialSum start.toInt items count)) →
    ∃ total : Int64, total.toInt = partialSum start.toInt items items.length ∧
      sum.run machine = (.value (.int total), machine) ∧
      sum.trail machine = List.replicate items.length ⟨.change, machine⟩
  /-- So many additions go well before. -/
  overflows : ∀ {count}, FirstOverflow start.toInt items count →
    sum.run machine = (.raised overflow, machine) ∧
      sum.trail machine = List.replicate count ⟨.change, machine⟩ ++ [⟨.raise overflow, machine⟩]

theorem Sums.of_agree {one other : Computation Machine Value} (agree : one.Agree other machine)
    (sums : Sums machine items start other) : Sums machine items start one where
  exact inRange := by
    rw [agree.1, agree.2]
    exact sums.exact inRange
  overflows first := by
    rw [agree.1, agree.2]
    exact sums.overflows first

/-- Where the first addition goes well, the sum goes on from there. -/
theorem Sums.cons {next : Int64} {first : Computation Machine Value}
    {rest : Value → Computation Machine Value} (exact : next.toInt = start.toInt + item.whole)
    (ran : first.run machine = (.value (.int next), machine))
    (changed : first.trail machine = [⟨.change, machine⟩])
    (sums : Sums machine items next (rest (.int next))) :
    Sums machine (item :: items) start (first >>= rest) where
  exact inRange := by
    have later (count : Nat) (within : count ≤ items.length) :
        Word.InRange (partialSum next.toInt items count) := by
      rw [exact, ← partialSum_cons]
      exact inRange (count + 1) (Nat.succ_le_succ within)
    obtain ⟨total, equal, run, trail⟩ := sums.exact later
    refine ⟨total, ?_, ?_, ?_⟩
    · rw [equal, exact, List.length_cons, partialSum_cons]
    · exact (Computation.run_bind_of_value ran rest).trans run
    · rw [Computation.trail_bind_of_value ran, changed, trail]
      rfl
  overflows {count} overflow := by
    cases count with
    | zero =>
        have here := overflow.here
        rw [partialSum_one, ← exact] at here
        exact absurd (Word.inRange_toInt next) here
    | succ count =>
        obtain ⟨run, trail⟩ := sums.overflows (exact ▸ overflow.tail)
        refine ⟨(Computation.run_bind_of_value ran rest).trans run, ?_⟩
        rw [Computation.trail_bind_of_value ran, changed, trail]
        rfl

/-- Where the first addition fails, so does the sum. -/
theorem Sums.fail {first : Computation Machine Value} {rest : Value → Computation Machine Value}
    (outside : ¬Word.InRange (start.toInt + item.whole))
    (ran : first.run machine = (.raised overflow, machine))
    (raised : first.trail machine = [⟨.raise overflow, machine⟩]) :
    Sums machine (item :: items) start (first >>= rest) where
  exact inRange := by
    have second := inRange 1 (Nat.succ_le_succ (Nat.zero_le _))
    rw [partialSum_one] at second
    exact absurd second outside
  overflows {count} overflow := by
    cases count with
    | zero =>
        refine ⟨Computation.run_bind_of_raised ran rest, ?_⟩
        rw [Computation.trail_bind_of_ne_value (fun a => by rw [ran]; nofun), raised]
        rfl
    | succ count =>
        have second := overflow.before 1 (Nat.succ_le_succ (Nat.zero_le _))
        rw [partialSum_one] at second
        exact absurd second outside

theorem total_sums (adds : machine.world.AddsIntegers adder)
    (whole : ∀ item ∈ items, ∃ n, item.asInt = some n) (depth : Nat) (start : Int64) :
    Sums machine items start (total (call (depth + 1)) (.int start) items) := by
  -- What is added up so far is the start of the sum of the items that are left.
  induction items generalizing start with
  | nil =>
      refine ⟨fun _ => ⟨start, partialSum_zero.symm, rfl, rfl⟩, fun first => ?_⟩
      exact absurd first.within (Nat.not_lt_zero _)
  | cons item items ih =>
      obtain ⟨n, isInt⟩ := whole item List.mem_cons_self
      have counts : item.whole = n.toInt := by
        rw [Value.whole, isInt, Option.getD_some]
      cases added : Word.add? start n with
      | some next =>
          obtain ⟨ran, changed⟩ := fast_add_of_some adds isInt added depth
          have exact : next.toInt = start.toInt + item.whole :=
            counts ▸ Word.add?_eq_some_iff.mp added
          exact .cons exact ran changed
            (ih (fun item member => whole item (List.mem_cons_of_mem _ member)) next)
      | none =>
          obtain ⟨ran, raised⟩ := fast_add_of_none adds isInt added depth
          exact .fail (counts ▸ Word.add?_eq_none_iff.mp added) ran raised

/-- The built-in function sums up the items of the sequence that it is given. -/
theorem sum_agrees {sequence : Value} {native : Native}
    (installed : machine.world.Installed .sum none native)
    (holds : machine.world.heap.sequence? sequence = some items) (depth : Nat)
    (start : Int64) :
    (call (depth + 1) (.native native) (.ofList [sequence, .int start])).Agree
        (total (call depth) (.int start) items) machine ∧
      (call (depth + 1) (.native native) (.ofList [sequence])).Agree
        (total (call depth) (.int 0) items) machine := by
  have sums (start : Value) :
      (sum (call depth) sequence start).Agree (total (call depth) start items) machine :=
    Computation.agree_inspect_bind_of_ok _ (by rw [holds]) _
  exact ⟨(call_installed installed nofun depth).trans (sums (.int start)),
    (call_installed installed nofun depth).trans (sums (.int 0))⟩

end Machine

variable {machine : Machine} {native adder : Native} {sequence : Value} {items : List Value}

/--
While integers are added by the built-in function, a sum of integers and truth values is
the integer of their exact sum if every partial sum has a word, and otherwise fails at the
first one that has none, with a value error; one of the two is the case.  Without a start
the sum starts at zero.  Neither the sequence nor anything else is changed at any time.
-/
theorem sum_is_exact_or_overflows
    (installed : machine.world.Installed .sum none native)
    (adds : machine.world.AddsIntegers adder)
    (holds : machine.world.heap.sequence? sequence = some items)
    (whole : ∀ item ∈ items, ∃ n, item.asInt = some n) (depth : Nat) (start : Int64) :
    Machine.Sums machine items start
        (Machine.call (depth + 2) (.native native) (.ofList [sequence, .int start])) ∧
      Machine.Sums machine items 0
        (Machine.call (depth + 2) (.native native) (.ofList [sequence])) ∧
      ((∀ count ≤ items.length, Word.InRange (partialSum start.toInt items count)) ∨
        ∃ count, FirstOverflow start.toInt items count) ∧
      Machine.overflow.type = .valueError := by
  obtain ⟨started, unstarted⟩ := Machine.sum_agrees installed holds (depth + 1) start
  refine ⟨.of_agree started ?_, .of_agree unstarted ?_, ?_, rfl⟩
  · exact Machine.total_sums adds whole depth start
  · exact Machine.total_sums adds whole depth 0
  · exact inRange_or_firstOverflow (Word.inRange_toInt start) items

/-- The functions of a fresh machine that sum up sequences and add integers. -/
def sumNative : Native := ⟨"sum", none, some "sum(iterable[, start])", ⟨27⟩⟩

def addNative : Native := ⟨"__add__", some 2, none, ⟨0⟩⟩

/-- A sum past the greatest word is not taken back, though the whole sum would fit. -/
theorem sum_is_exact_or_overflows_fresh :
    World.fresh.builtins.get? "sum" = some (.native sumNative) ∧
      (Machine.call 2 (.native sumNative)
          (.ofList [.tuple [.bool true, .int (-1)], .int Int64.maxValue])).run (.fresh {}) =
        (.raised (.ofCause (.arithmeticOverflow "addition")), .fresh {}) ∧
      (Machine.call 2 (.native sumNative) (.ofList [.tuple [.bool true, .int (-1)]])).run
        (.fresh {}) = (.value (.int 0), .fresh {}) := by
  have installed : (Machine.fresh {}).world.Installed .sum none sumNative := ⟨rfl, rfl⟩
  have adds : (Machine.fresh {}).world.AddsIntegers addNative := ⟨rfl, rfl, rfl⟩
  have holds : (Machine.fresh {}).world.heap.sequence? (.tuple [.bool true, .int (-1)]) =
      some [.bool true, .int (-1)] := rfl
  have whole : ∀ item ∈ [Value.bool true, .int (-1)], ∃ n, item.asInt = some n := by
    simp [Value.asInt]
  obtain ⟨started, unstarted, _⟩ :=
    sum_is_exact_or_overflows installed adds holds whole 0 Int64.maxValue
  have first : FirstOverflow Int64.maxValue.toInt [.bool true, .int (-1)] 0 :=
    ⟨by decide, by decide, by decide⟩
  obtain ⟨total, equal, run, _⟩ := unstarted.exact (by decide)
  have zero : total = 0 := Int64.toInt_inj.mp equal
  exact ⟨rfl, (started.overflows first).1, zero ▸ run⟩

end ScriptCore
