import Mathlib.Data.List.Pairwise
import Mathlib.Order.Bounds.Defs
import ScriptCore.Proofs.Signature.Layout

/-!
# The grammar of signatures

A parameter list is accepted exactly if names are distinct, collectors have no
default, and the list reads required, optional, variadic, keyword-only, keyword
collector.  A list that is refused is reported at the first parameter with which
it stops being the beginning of such a list.

The pass over a list may also note how many positional parameters there are and
where the collectors stand.  These notes find the parts of the signature again.
-/

namespace ScriptCore

theorem Parameter.MayPrecede.not_rank_lt {p q : Parameter} (precedes : p.MayPrecede q) :
    ¬ q.kind.rank < p.kind.rank :=
  Nat.not_lt_of_le precedes.rank_le

namespace Signature

/-! ## The grammar -/

/-- A parameter list in its five groups, in the order of the grammar. -/
structure Reading where
  /-- Positional parameters without default. -/
  required : List Parameter
  /-- Positional parameters with default. -/
  optional : List Parameter
  variadic : Option Parameter
  keywordOnly : List Parameter
  keywordCollector : Option Parameter

namespace Reading

def parameters (reading : Reading) : List Parameter :=
  reading.required ++ reading.optional ++ reading.variadic.toList ++ reading.keywordOnly ++
    reading.keywordCollector.toList

/-- Every parameter is in the group where it belongs. -/
structure Sorted (reading : Reading) : Prop where
  required : ∀ p ∈ reading.required, p.kind = .positional ∧ p.hasDefault = false
  optional : ∀ p ∈ reading.optional, p.kind = .positional ∧ p.hasDefault = true
  variadic : ∀ p ∈ reading.variadic, p.kind = .variadic
  keywordOnly : ∀ p ∈ reading.keywordOnly, p.kind = .keywordOnly
  keywordCollector : ∀ p ∈ reading.keywordCollector, p.kind = .keywordCollector

end Reading

/-- The parameter lists that a function can have. -/
structure Grammatical (parameters : List Parameter) : Prop where
  distinct : (parameters.map (·.name)).Nodup
  plain : ∀ p ∈ parameters, p.isCollector → p.hasDefault = false
  reads : ∃ reading : Reading, reading.Sorted ∧ parameters = reading.parameters

/-! ## Two parameters at a time -/

/-- Any two parameters may stand in their order, and no collector has a default. -/
structure Orderly (parameters : List Parameter) : Prop where
  pairwise : parameters.Pairwise Parameter.MayPrecede
  plain : ∀ p ∈ parameters, p.isCollector → p.hasDefault = false

variable {parameters seen : List Parameter} {p q : Parameter}

theorem Orderly.sublist {part : List Parameter} (orderly : Orderly parameters)
    (inside : part.Sublist parameters) : Orderly part :=
  ⟨orderly.pairwise.sublist inside, fun p member => orderly.plain p (inside.subset member)⟩

theorem orderly_nil : Orderly [] := ⟨.nil, nofun⟩

theorem orderly_concat_iff :
    Orderly (seen ++ [p]) ↔
      Orderly seen ∧ (∀ q ∈ seen, q.MayPrecede p) ∧ (p.isCollector → p.hasDefault = false) := by
  constructor
  · intro orderly
    have across := (List.pairwise_append.mp orderly.pairwise).2.2
    refine ⟨orderly.sublist (List.sublist_append_left _ _), fun q member => ?_, ?_⟩
    · exact across q member p List.mem_cons_self
    · exact orderly.plain p (List.mem_append_right _ List.mem_cons_self)
  · rintro ⟨orderly, across, plain⟩
    refine ⟨List.pairwise_append.mpr ⟨orderly.pairwise, List.pairwise_singleton _ _, ?_⟩, ?_⟩
    · intro q member r last
      rw [List.mem_singleton] at last
      exact last ▸ across q member
    · intro q member
      rcases List.mem_append.mp member with early | last
      · exact orderly.plain q early
      · rw [List.mem_singleton] at last
        exact last ▸ plain

/-- Positional parameters in signature order have their defaults at the end. -/
theorem exists_required_optional (ordered : parameters.Pairwise Parameter.MayPrecede)
    (positional : ∀ p ∈ parameters, p.kind = .positional) :
    ∃ required optional, parameters = required ++ optional ∧
      (∀ p ∈ required, p.hasDefault = false) ∧ ∀ p ∈ optional, p.hasDefault = true := by
  induction ordered with
  | nil => exact ⟨[], [], rfl, nofun, nofun⟩
  | @cons p rest head _ ih =>
      have later : ∀ q ∈ rest, q.kind = .positional := fun q member =>
        positional q (List.mem_cons_of_mem _ member)
      cases given : p.hasDefault with
      | true =>
          refine ⟨[], p :: rest, rfl, nofun, List.forall_mem_cons.mpr ⟨given, fun q member => ?_⟩⟩
          exact (head q member).defaulted (positional p List.mem_cons_self) (later q member) given
      | false =>
          obtain ⟨required, optional, rfl, without, having⟩ := ih later
          exact ⟨p :: required, optional, rfl, List.forall_mem_cons.mpr ⟨given, without⟩, having⟩

theorem Orderly.grammatical (orderly : Orderly parameters) : Grammatical parameters := by
  refine ⟨List.pairwise_map.mpr (orderly.pairwise.imp (·.distinct)), orderly.plain, ?_⟩
  have positional : ∀ p ∈ parameters.takeWhile (·.isPositional), p.kind = .positional := by
    intro p member
    simpa [Parameter.isPositional] using List.all_eq_true.mp List.all_takeWhile p member
  obtain ⟨required, optional, split, without, having⟩ := exists_required_optional
    (orderly.pairwise.sublist (List.takeWhile_sublist _)) positional
  rw [split] at positional
  refine ⟨⟨required, optional, parameters.find? (·.kind = .variadic),
    parameters.filter (·.kind = .keywordOnly), parameters.find? (·.kind = .keywordCollector)⟩,
    ⟨?_, ?_, ?_, ?_, ?_⟩, ?_⟩
  · exact fun p member => ⟨positional p (List.mem_append_left _ member), without p member⟩
  · exact fun p member => ⟨positional p (List.mem_append_right _ member), having p member⟩
  · exact fun p found => by simpa using List.find?_some found
  · exact fun p member => by simpa using (List.mem_filter.mp member).2
  · exact fun p found => by simpa using List.find?_some found
  · rw [Reading.parameters, ← split]
    exact eq_append_of_pairwise orderly.pairwise

/-! ## From the grammar to pairs -/

/-- Kinds and defaults allow the first parameter before the second. -/
structure Before (p q : Parameter) : Prop where
  ordered : p.kind.rank < q.kind.rank ∨ p.kind = q.kind ∧ p.isCollector = false
  defaulted : p.kind = .positional → q.kind = .positional → p.hasDefault → q.hasDefault

theorem before_of_rank_lt (lower : p.kind.rank < q.kind.rank) : Before p q := by
  refine ⟨.inl lower, fun first second _ => ?_⟩
  rw [first, second] at lower
  exact absurd lower (Nat.lt_irrefl _)

/-- Parameters of one kind that is no collector may stand in any order of their defaults. -/
theorem before_of_same_kind {kind : ParameterKind} (plain : kind.isCollector = false)
    (first : p.kind = kind) (second : q.kind = kind)
    (defaulted : kind = .positional → p.hasDefault → q.hasDefault) : Before p q := by
  refine ⟨.inr ⟨first.trans second.symm, ?_⟩, fun positional _ => ?_⟩
  · rw [Parameter.isCollector, first, plain]
  · exact defaulted (first.symm.trans positional)

/-- The rank of a group of one kind is that of the kind. -/
theorem rank_lt_of_kind {group : List Parameter} {kind : ParameterKind} {bound : Nat}
    (all : ∀ p ∈ group, p.kind = kind) (low : kind.rank < bound) :
    ∀ p ∈ group, p.kind.rank < bound := by
  intro p member
  rwa [all p member]

theorem le_rank_of_kind {group : List Parameter} {kind : ParameterKind} {bound : Nat}
    (all : ∀ p ∈ group, p.kind = kind) (high : bound ≤ kind.rank) :
    ∀ p ∈ group, bound ≤ p.kind.rank := by
  intro p member
  rwa [all p member]

theorem pairwise_before_append {front back : List Parameter} (bound : Nat)
    (early : front.Pairwise Before) (late : back.Pairwise Before)
    (below : ∀ p ∈ front, p.kind.rank < bound) (above : ∀ p ∈ back, bound ≤ p.kind.rank) :
    (front ++ back).Pairwise Before :=
  List.pairwise_append.mpr ⟨early, late, fun p first q second =>
    before_of_rank_lt (Nat.lt_of_lt_of_le (below p first) (above q second))⟩

theorem pairwise_before_toList (collector : Option Parameter) :
    collector.toList.Pairwise Before := by
  cases collector with
  | none => exact .nil
  | some p => exact List.pairwise_singleton _ _

namespace Reading.Sorted

variable {reading : Reading} (sorted : reading.Sorted)

include sorted

theorem pairwise_positional : (reading.required ++ reading.optional).Pairwise Before := by
  refine List.pairwise_append.mpr ⟨?_, ?_, fun p first q second => ?_⟩
  · refine List.pairwise_of_forall_mem_list fun p first q second => ?_
    refine before_of_same_kind rfl (sorted.required p first).1 (sorted.required q second).1 ?_
    intro _ given
    rw [(sorted.required p first).2] at given
    cases given
  · refine List.pairwise_of_forall_mem_list fun p first q second => ?_
    exact before_of_same_kind rfl (sorted.optional p first).1 (sorted.optional q second).1
      fun _ _ => (sorted.optional q second).2
  · exact before_of_same_kind rfl (sorted.required p first).1 (sorted.optional q second).1
      fun _ _ => (sorted.optional q second).2

theorem pairwise_keywordOnly : reading.keywordOnly.Pairwise Before :=
  List.pairwise_of_forall_mem_list fun p first q second =>
    before_of_same_kind rfl (sorted.keywordOnly p first) (sorted.keywordOnly q second) nofun

theorem kind_of_positional : ∀ p ∈ reading.required ++ reading.optional, p.kind = .positional :=
  List.forall_mem_append.mpr ⟨fun p member => (sorted.required p member).1,
    fun p member => (sorted.optional p member).1⟩

theorem kind_of_variadic : ∀ p ∈ reading.variadic.toList, p.kind = .variadic :=
  fun p member => sorted.variadic p (Option.mem_toList.mp member)

theorem kind_of_keywordCollector :
    ∀ p ∈ reading.keywordCollector.toList, p.kind = .keywordCollector :=
  fun p member => sorted.keywordCollector p (Option.mem_toList.mp member)

/-- The groups one after the other: ranks rise from each to the next. -/
theorem pairwise_parameters : reading.parameters.Pairwise Before := by
  have upToVariadic : (reading.required ++ reading.optional ++ reading.variadic.toList).Pairwise
      Before := by
    apply pairwise_before_append 1 sorted.pairwise_positional (pairwise_before_toList _)
    · exact rank_lt_of_kind sorted.kind_of_positional (by decide)
    · exact le_rank_of_kind sorted.kind_of_variadic (by decide)
  have upToKeywordOnly : (reading.required ++ reading.optional ++ reading.variadic.toList ++
      reading.keywordOnly).Pairwise Before := by
    apply pairwise_before_append 2 upToVariadic sorted.pairwise_keywordOnly
    · rw [List.forall_mem_append]
      constructor
      · exact rank_lt_of_kind sorted.kind_of_positional (by decide)
      · exact rank_lt_of_kind sorted.kind_of_variadic (by decide)
    · exact le_rank_of_kind sorted.keywordOnly (by decide)
  apply pairwise_before_append 3 upToKeywordOnly (pairwise_before_toList _)
  · rw [List.forall_mem_append, List.forall_mem_append]
    refine ⟨⟨?_, ?_⟩, ?_⟩
    · exact rank_lt_of_kind sorted.kind_of_positional (by decide)
    · exact rank_lt_of_kind sorted.kind_of_variadic (by decide)
    · exact rank_lt_of_kind sorted.keywordOnly (by decide)
  · exact le_rank_of_kind sorted.kind_of_keywordCollector (by decide)

end Reading.Sorted

theorem Grammatical.orderly (grammatical : Grammatical parameters) : Orderly parameters := by
  obtain ⟨distinct, plain, reading, sorted, rfl⟩ := grammatical
  refine ⟨?_, plain⟩
  refine ((List.pairwise_map.mp distinct).and sorted.pairwise_parameters).imp ?_
  rintro p q ⟨apart, before⟩
  exact ⟨apart, before.ordered, before.defaulted⟩

theorem grammatical_iff_orderly : Grammatical parameters ↔ Orderly parameters :=
  ⟨Grammatical.orderly, Orderly.grammatical⟩

/-! ## The pass over a parameter list -/

theorem isCollector_of_variadic (kind : p.kind = .variadic) : p.isCollector = true := by
  rw [Parameter.isCollector, kind]
  rfl

theorem isCollector_of_keywordCollector (kind : p.kind = .keywordCollector) :
    p.isCollector = true := by
  rw [Parameter.isCollector, kind]
  rfl

/-- A scan remembers of the parameters seen what it needs, and asserts nothing else of them. -/
structure Scan.Recalls (scan : Scan) (seen : List Parameter) : Prop where
  remembers : ∀ q ∈ seen, scan.Remembers q
  name : ∀ name ∈ scan.names, ∃ q ∈ seen, q.name = name
  defaulted : scan.defaulted = true → ∃ q ∈ seen, q.kind = .positional ∧ q.hasDefault
  variadic : scan.variadic = true → ∃ q ∈ seen, q.kind = .variadic
  keywordOnly : scan.keywordOnly = true → ∃ q ∈ seen, q.kind = .keywordOnly
  keywordCollector : scan.keywordCollector = true → ∃ q ∈ seen, q.kind = .keywordCollector

/-- A flag that was set by an earlier parameter, or is set by this one. -/
theorem exists_of_flag {flag now : Bool} {sets : Parameter → Prop}
    (earlier : flag = true → ∃ q ∈ seen, sets q) (last : now = true → sets p)
    (set : (flag || now) = true) : ∃ q ∈ seen ++ [p], sets q := by
  rcases (Bool.or_eq_true _ _).mp set with before | here
  · obtain ⟨q, member, holds⟩ := earlier before
    exact ⟨q, List.mem_append_left _ member, holds⟩
  · exact ⟨p, List.mem_append_right _ List.mem_cons_self, last here⟩

namespace Scan.Recalls

variable {scan : Scan}

theorem start : ({} : Scan).Recalls [] where
  remembers := nofun
  name := nofun
  defaulted := nofun
  variadic := nofun
  keywordOnly := nofun
  keywordCollector := nofun

theorem record (recalls : scan.Recalls seen) (p : Parameter) :
    (scan.record p).Recalls (seen ++ [p]) where
  remembers := by
    intro q member
    rcases List.mem_append.mp member with earlier | last
    · exact (recalls.remembers q earlier).record p
    · rw [List.mem_singleton] at last
      exact last ▸ scan.remembers_record p
  name := by
    intro name known
    rcases List.mem_cons.mp known with rfl | earlier
    · exact ⟨p, List.mem_append_right _ List.mem_cons_self, rfl⟩
    · obtain ⟨q, member, same⟩ := recalls.name name earlier
      exact ⟨q, List.mem_append_left _ member, same⟩
  defaulted := exists_of_flag recalls.defaulted fun now => by simpa using now
  variadic := exists_of_flag recalls.variadic fun now => by simpa using now
  keywordOnly := exists_of_flag recalls.keywordOnly fun now => by simpa using now
  keywordCollector := exists_of_flag recalls.keywordCollector fun now => by simpa using now

/-- What a scan accepts next is what may follow each of the parameters seen. -/
theorem admits_iff (recalls : scan.Recalls seen) :
    scan.Admits p ↔
      (∀ q ∈ seen, q.MayPrecede p) ∧ (p.isCollector → p.hasDefault = false) := by
  constructor
  · intro admits
    exact ⟨fun q member => admits.mayPrecede (recalls.remembers q member), admits.plain⟩
  · rintro ⟨follows, plain⟩
    have fresh : p.name ∉ scan.names := fun known => by
      obtain ⟨q, member, same⟩ := recalls.name p.name known
      exact (follows q member).distinct same
    -- A flag goes back to a parameter that was seen, which `p` has to be allowed to follow.
    have last : scan.keywordCollector = false := Bool.eq_false_iff.mpr fun flag => by
      obtain ⟨q, member, kind⟩ := recalls.keywordCollector flag
      have other := (follows q member).kind_ne (isCollector_of_keywordCollector kind)
      have bound := (follows q member).rank_le
      rw [kind] at other bound
      exact other (ParameterKind.eq_keywordCollector bound)
    have noVariadic (early : p.kind = .positional ∨ p.kind = .variadic) :
        scan.variadic = false := Bool.eq_false_iff.mpr fun flag => by
      obtain ⟨q, member, kind⟩ := recalls.variadic flag
      rcases early with positional | variadic
      · exact (follows q member).not_rank_lt (by rw [kind, positional]; decide)
      · exact (follows q member).kind_ne (isCollector_of_variadic kind) (variadic.trans kind.symm)
    have noKeywordOnly (early : p.kind = .positional ∨ p.kind = .variadic) :
        scan.keywordOnly = false := Bool.eq_false_iff.mpr fun flag => by
      obtain ⟨q, member, kind⟩ := recalls.keywordOnly flag
      rcases early with positional | variadic
      · exact (follows q member).not_rank_lt (by rw [kind, positional]; decide)
      · exact (follows q member).not_rank_lt (by rw [kind, variadic]; decide)
    refine ⟨fresh, last, plain, fun kind => ?_, fun kind => ?_⟩
    · refine ⟨noVariadic (.inl kind), noKeywordOnly (.inl kind), fun flag => ?_⟩
      obtain ⟨q, member, positional, given⟩ := recalls.defaulted flag
      exact (follows q member).defaulted positional kind given
    · exact ⟨noVariadic (.inr kind), noKeywordOnly (.inr kind)⟩

end Scan.Recalls

/-- Where a list is refused, everything before was in order, and is not any more with this one. -/
theorem Scan.exists_breach {scan : Scan} {error : SignatureError} (recalls : scan.Recalls seen)
    (orderly : Orderly seen) (refused : scan.run parameters = .error error) :
    ∃ before p after, parameters = before ++ p :: after ∧ error.parameter = p.name ∧
      scan.run (before ++ [p]) = .error error ∧
      Orderly (seen ++ before) ∧ ¬ Orderly (seen ++ (before ++ [p])) := by
  induction parameters generalizing scan seen with
  | nil => cases refused
  | cons p rest ih =>
      unfold Scan.run at refused
      cases step : scan.step p with
      | error fault =>
          rw [step] at refused
          cases refused
          refine ⟨[], p, rest, rfl, rfl, ?_, by rwa [List.append_nil], fun whole => ?_⟩
          · rw [List.nil_append, Scan.run, step]
          · rw [List.nil_append, orderly_concat_iff] at whole
            have admits := recalls.admits_iff.mpr whole.2
            rw [Scan.step_eq_ok_iff.mpr ⟨admits, rfl⟩] at step
            cases step
      | ok next =>
          rw [step] at refused
          obtain ⟨admits, rfl⟩ := Scan.step_eq_ok_iff.mp step
          have extended := orderly_concat_iff.mpr ⟨orderly, recalls.admits_iff.mp admits⟩
          obtain ⟨before, breach, after, rfl, named, stopped, good, bad⟩ :=
            ih (recalls.record p) extended refused
          rw [List.append_assoc, List.singleton_append] at good bad
          refine ⟨p :: before, breach, after, rfl, named, ?_, good, bad⟩
          rw [List.cons_append, Scan.run, step]
          exact stopped

theorem Scan.exists_run_iff :
    (∃ final, Scan.run {} parameters = .ok final) ↔ Grammatical parameters := by
  rw [grammatical_iff_orderly]
  constructor
  · rintro ⟨final, accepted⟩
    obtain ⟨pairwise, _, plain⟩ := Scan.run_eq_ok accepted
    exact ⟨pairwise, plain⟩
  · intro orderly
    cases outcome : Scan.run {} parameters with
    | ok final => exact ⟨final, rfl⟩
    | error error =>
        obtain ⟨before, p, after, rfl, _, _, _, bad⟩ :=
          Scan.exists_breach .start orderly_nil outcome
        rw [List.nil_append] at bad
        refine absurd (orderly.sublist ?_) bad
        exact List.Sublist.append_left (List.singleton_sublist.mpr List.mem_cons_self) before

/-! ## The parts of a signature -/

theorem ofParameters_eq_ok_iff {s : Signature} :
    ofParameters parameters = .ok s ↔ s.parameters = parameters := by
  unfold ofParameters
  constructor
  · intro accepted
    split at accepted
    · cases accepted
      rfl
    · cases accepted
  · rintro rfl
    obtain ⟨final, accepted⟩ := s.accepted
    split
    · rfl
    · next refused =>
        rw [accepted] at refused
        cases refused

theorem ofParameters_eq_error_iff {error : SignatureError} :
    ofParameters parameters = .error error ↔ Scan.run {} parameters = .error error := by
  unfold ofParameters
  split
  · next accepted => exact ⟨nofun, fun refused => nomatch accepted.symm.trans refused⟩
  · next other refused =>
      constructor
      · intro same
        cases same
        exact refused
      · intro again
        exact congrArg _ (Except.error.inj (refused.symm.trans again))

theorem exists_ofParameters_iff :
    (∃ s, ofParameters parameters = .ok s) ↔ Grammatical parameters := by
  rw [← Scan.exists_run_iff]
  constructor
  · rintro ⟨s, accepted⟩
    exact ofParameters_eq_ok_iff.mp accepted ▸ s.accepted
  · intro accepted
    exact ⟨⟨parameters, accepted⟩, ofParameters_eq_ok_iff.mpr rfl⟩

namespace Reading.Sorted

variable {reading : Reading} (sorted : reading.Sorted)

include sorted

theorem takeWhile_parameters :
    reading.parameters.takeWhile (·.isPositional) = reading.required ++ reading.optional := by
  have positional : ∀ p ∈ reading.required ++ reading.optional, p.isPositional = true :=
    fun p member => by simp [Parameter.isPositional, sorted.kind_of_positional p member]
  have later : ∀ p ∈ reading.variadic.toList ++
      (reading.keywordOnly ++ reading.keywordCollector.toList), 0 < p.kind.rank := by
    rw [List.forall_mem_append, List.forall_mem_append]
    refine ⟨?_, ?_, ?_⟩
    · exact le_rank_of_kind sorted.kind_of_variadic (by decide)
    · exact le_rank_of_kind sorted.keywordOnly (by decide)
    · exact le_rank_of_kind sorted.kind_of_keywordCollector (by decide)
  rw [parameters, List.append_assoc, List.append_assoc, List.takeWhile_append_of_pos positional,
    takeWhile_isPositional_eq_nil later, List.append_nil]

/-- The group of a kind is what a filter for the kind leaves. -/
theorem filter_parameters (kind : ParameterKind) :
    reading.parameters.filter (·.kind = kind) =
      match kind with
      | .positional => reading.required ++ reading.optional
      | .variadic => reading.variadic.toList
      | .keywordOnly => reading.keywordOnly
      | .keywordCollector => reading.keywordCollector.toList := by
  have whole {group : List Parameter} {own : ParameterKind} (all : ∀ p ∈ group, p.kind = own) :
      group.filter (·.kind = kind) = if own = kind then group else [] := by
    split
    · next same => exact List.filter_eq_self.mpr fun p member => by simp [all p member, same]
    · next other => exact List.filter_eq_nil_iff.mpr fun p member => by simp [all p member, other]
  rw [parameters, List.filter_append, List.filter_append, List.filter_append,
    whole sorted.kind_of_positional, whole sorted.kind_of_variadic, whole sorted.keywordOnly,
    whole sorted.kind_of_keywordCollector]
  cases kind <;> simp

theorem countP_required :
    (reading.required ++ reading.optional).countP (!·.hasDefault) = reading.required.length := by
  have without : ∀ p ∈ reading.required, (!p.hasDefault) = true := fun p member => by
    rw [(sorted.required p member).2]
    rfl
  have having : ∀ p ∈ reading.optional, ¬ (!p.hasDefault) = true := fun p member => by
    rw [(sorted.optional p member).2]
    exact Bool.false_ne_true
  rw [List.countP_append, List.countP_eq_length.mpr without, List.countP_eq_zero.mpr having,
    Nat.add_zero]

theorem takeWhile_required :
    (reading.required ++ reading.optional).takeWhile (!·.hasDefault) = reading.required := by
  have without : ∀ p ∈ reading.required, (!p.hasDefault) = true := fun p member => by
    rw [(sorted.required p member).2]
    rfl
  rw [List.takeWhile_append_of_pos without]
  cases optional : reading.optional with
  | nil => exact List.append_nil _
  | cons p rest =>
      have given : p.hasDefault = true :=
        (sorted.optional p (optional ▸ List.mem_cons_self)).2
      rw [List.takeWhile_cons_of_neg (by simp [given]), List.append_nil]

end Reading.Sorted

/-! ## Notes taken on the way -/

/-- How many positional parameters there are, and where the collectors stand. -/
structure Notes where
  positionalCount : Nat := 0
  variadicPlace : Option Nat := none
  keywordCollectorPlace : Option Nat := none

/-- A pass that takes notes: a collector has been seen if its place is noted. -/
structure Pass extends Notes where
  place : Nat := 0
  names : List Name := []
  defaulted : Bool := false
  keywordOnly : Bool := false

namespace Pass

/-- Accept one more parameter and note what it is, or name the first rule it breaks. -/
def step (pass : Pass) (p : Parameter) : Except SignatureFault Pass :=
  let next := { pass with place := pass.place + 1, names := p.name :: pass.names }
  if p.name ∈ pass.names then .error .duplicateParameter
  else if pass.keywordCollectorPlace.isSome then
    .error (if p.kind = .keywordCollector then .multipleKeywordCollectors
      else .afterKeywordCollector)
  else if p.isCollector ∧ p.hasDefault then .error .collectorWithDefault
  else match p.kind with
    | .positional =>
        let counted := { next with positionalCount := pass.positionalCount + 1 }
        if pass.variadicPlace.isSome ∨ pass.keywordOnly then .error .positionalAfterVariadic
        else if p.hasDefault then .ok { counted with defaulted := true }
        else if pass.defaulted then .error .nonDefaultAfterDefault
        else .ok counted
    | .variadic =>
        if pass.variadicPlace.isSome then .error .multipleVariadic
        else if pass.keywordOnly then .error .keywordOnlyBeforeVariadic
        else .ok { next with variadicPlace := some pass.place }
    | .keywordOnly => .ok { next with keywordOnly := true }
    | .keywordCollector => .ok { next with keywordCollectorPlace := some pass.place }

/-- Accept parameters one after the other. -/
def run (pass : Pass) : List Parameter → Except SignatureError Pass
  | [] => .ok pass
  | p :: rest =>
      match pass.step p with
      | .ok next => next.run rest
      | .error fault => .error ⟨fault, p.name⟩

/-- What is left of a pass without the notes. -/
def scan (pass : Pass) : Scan where
  names := pass.names
  defaulted := pass.defaulted
  variadic := pass.variadicPlace.isSome
  keywordOnly := pass.keywordOnly
  keywordCollector := pass.keywordCollectorPlace.isSome

/-- The pass after one more parameter, whatever its place. -/
def record (pass : Pass) (p : Parameter) : Pass where
  positionalCount := pass.positionalCount + if p.kind = .positional then 1 else 0
  variadicPlace := if p.kind = .variadic then some pass.place else pass.variadicPlace
  keywordCollectorPlace :=
    if p.kind = .keywordCollector then some pass.place else pass.keywordCollectorPlace
  place := pass.place + 1
  names := p.name :: pass.names
  defaulted := pass.defaulted || p.kind = .positional && p.hasDefault
  keywordOnly := pass.keywordOnly || p.kind = .keywordOnly

theorem scan_record (pass : Pass) (p : Parameter) :
    (pass.record p).scan = pass.scan.record p := by
  cases kind : p.kind <;> simp [record, scan, Scan.record, kind]

/-- The notes decide nothing. -/
theorem step_eq (pass : Pass) (p : Parameter) :
    pass.step p = (pass.scan.step p).map fun _ => pass.record p := by
  unfold step Scan.step
  by_cases known : p.name ∈ pass.names
  · rw [if_pos known, if_pos (show p.name ∈ pass.scan.names from known)]
    rfl
  rw [if_neg known, if_neg (show p.name ∉ pass.scan.names from known)]
  by_cases last : pass.keywordCollectorPlace.isSome
  · rw [if_pos last, if_pos (show pass.scan.keywordCollector from last)]
    rfl
  rw [if_neg last, if_neg (show ¬ pass.scan.keywordCollector from last)]
  by_cases given : p.isCollector ∧ p.hasDefault
  · rw [if_pos given, if_pos given]
    rfl
  rw [if_neg given, if_neg given]
  cases kind : p.kind with
  | positional =>
      by_cases late : pass.variadicPlace.isSome ∨ pass.keywordOnly
      · simp [scan, late, Except.map]
      · cases having : p.hasDefault <;> cases before : pass.defaulted <;>
          simp [scan, record, kind, late, having, before, Except.map]
  | variadic =>
      by_cases second : pass.variadicPlace.isSome
      · simp [scan, second, Except.map]
      · cases late : pass.keywordOnly <;> simp [scan, record, kind, second, late, Except.map]
  | keywordOnly => simp [record, kind, Except.map]
  | keywordCollector => simp [record, kind, Except.map]

theorem run_eq (pass : Pass) (parameters : List Parameter) :
    pass.run parameters =
      (pass.scan.run parameters).map fun _ => parameters.foldl record pass := by
  induction parameters generalizing pass with
  | nil => rfl
  | cons p rest ih =>
      rw [run, Scan.run, step_eq]
      cases stepped : pass.scan.step p with
      | error fault => rfl
      | ok next =>
          obtain ⟨_, rfl⟩ := Scan.step_eq_ok_iff.mp stepped
          rw [← scan_record]
          exact ih (pass.record p)

/-- What a pass has noted of the parameters seen. -/
structure Follows (pass : Pass) (seen : List Parameter) : Prop where
  place : pass.place = seen.length
  positionalCount : pass.positionalCount = (seen.filter (·.kind = .positional)).length
  variadicPlace : pass.variadicPlace = seen.findIdx? (·.kind = .variadic)
  keywordCollectorPlace :
    pass.keywordCollectorPlace = seen.findIdx? (·.kind = .keywordCollector)

theorem follows_start : ({} : Pass).Follows [] := ⟨rfl, rfl, rfl, rfl⟩

end Pass

/-- A collector is the first of its kind wherever it stands. -/
theorem Orderly.findIdx?_concat {kind : ParameterKind} (orderly : Orderly (seen ++ [p]))
    (collector : kind.isCollector) :
    (seen ++ [p]).findIdx? (·.kind = kind) =
      if p.kind = kind then some seen.length else seen.findIdx? (·.kind = kind) := by
  rw [List.findIdx?_append, List.findIdx?_singleton]
  by_cases same : p.kind = kind
  · have earlier : ∀ q ∈ seen, q.kind ≠ kind := fun q member again => by
      have precedes := (orderly_concat_iff.mp orderly).2.1 q member
      refine precedes.kind_ne ?_ (same.trans again.symm)
      rw [Parameter.isCollector, again, collector]
    have none : seen.findIdx? (·.kind = kind) = none :=
      List.findIdx?_eq_none_iff.mpr fun q member => by simpa using earlier q member
    simp [none, same]
  · simp [same]

namespace Pass

theorem Follows.record {pass : Pass} (follows : pass.Follows seen)
    (orderly : Orderly (seen ++ [p])) : (pass.record p).Follows (seen ++ [p]) where
  place := by rw [List.length_append, List.length_singleton, ← follows.place]; rfl
  positionalCount := by
    by_cases positional : p.kind = .positional <;>
      simp [Pass.record, List.filter_append, follows.positionalCount, positional]
  variadicPlace := by
    rw [orderly.findIdx?_concat rfl, ← follows.place, ← follows.variadicPlace]
    rfl
  keywordCollectorPlace := by
    rw [orderly.findIdx?_concat rfl, ← follows.place, ← follows.keywordCollectorPlace]
    rfl

theorem Follows.foldl {pass : Pass} (follows : pass.Follows seen)
    (orderly : Orderly (seen ++ parameters)) :
    (parameters.foldl Pass.record pass).Follows (seen ++ parameters) := by
  induction parameters generalizing pass seen with
  | nil => rwa [List.append_nil]
  | cons p rest ih =>
      rw [List.append_cons] at orderly ⊢
      refine ih (follows.record (orderly.sublist ?_)) orderly
      exact List.sublist_append_left _ _

end Pass

/-- A first place is inside of the list, and what is found stands there. -/
theorem map_findIdx?_getElem? (test : Parameter → Bool) :
    (parameters.findIdx? test).map (parameters[·]?) = (parameters.find? test).map some := by
  rw [List.find?_eq_bind_findIdx?_getElem?]
  cases place : parameters.findIdx? test with
  | none => rfl
  | some i =>
      obtain ⟨inside, _⟩ := List.findIdx?_eq_some_iff_getElem.mp place
      simp [inside]

/-! ## Accepted and refused lists -/

/-- The parts of a signature are the groups of a list. -/
structure ReadAs (s : Signature) (reading : Reading) : Prop where
  positional : s.positional = reading.required ++ reading.optional
  requiredCount : s.requiredCount = reading.required.length
  variadic : s.variadic? = reading.variadic
  keywordOnly : s.keywordOnly = reading.keywordOnly
  keywordCollector : s.keywordCollector? = reading.keywordCollector

/-- The notes lead to the parts of a signature. -/
structure Notes.Locate (notes : Notes) (s : Signature) : Prop where
  inside : notes.positionalCount ≤ s.size
  positional : s.parameters.take notes.positionalCount = s.positional
  variadic : notes.variadicPlace.map (s.parameters[·]?) = s.variadic?.map some
  keywordCollector :
    notes.keywordCollectorPlace.map (s.parameters[·]?) = s.keywordCollector?.map some

/-- What a signature tells of the parameters it was made of. -/
structure Describes (s : Signature) (parameters : List Parameter) : Prop where
  same : s.parameters = parameters
  positional : s.positional = parameters.filter (·.kind = .positional)
  variadic : ∀ p, s.variadic? = some p ↔ p ∈ parameters ∧ p.kind = .variadic
  keywordCollector :
    ∀ p, s.keywordCollector? = some p ↔ p ∈ parameters ∧ p.kind = .keywordCollector
  place : ∀ i p, parameters[i]? = some p → s.positionOf? p.name = some i
  absent : ∀ name, s.positionOf? name = none ↔ ∀ p ∈ parameters, p.name ≠ name
  requiredCount : s.requiredCount = (s.positional.takeWhile (!·.hasDefault)).length
  groups : ∀ reading : Reading, reading.Sorted → parameters = reading.parameters → s.ReadAs reading
  located : ∃ pass, Pass.run {} parameters = .ok pass ∧ pass.toNotes.Locate s

/-- The list up to the parameter at `i` is the shortest that no function can have. -/
structure StopsAt (parameters : List Parameter) (error : SignatureError) (i : Nat) : Prop where
  parameter : parameters[i]?.map (·.name) = some error.parameter
  before : ∃ s, ofParameters (parameters.take i) = .ok s
  refused : ofParameters (parameters.take (i + 1)) = .error error
  least : IsLeast {j | ¬ Grammatical (parameters.take (j + 1))} i

variable {s : Signature} {reading : Reading}

theorem grammatical (s : Signature) : Grammatical s.parameters :=
  exists_ofParameters_iff.mp ⟨s, ofParameters_eq_ok_iff.mpr rfl⟩

theorem find?_kind_eq_head? (kind : ParameterKind) :
    parameters.find? (·.kind = kind) = (parameters.filter (·.kind = kind)).head? :=
  List.head?_filter.symm

theorem readAs (sorted : reading.Sorted) (same : s.parameters = reading.parameters) :
    s.ReadAs reading := by
  have positional : s.positional = reading.required ++ reading.optional := by
    rw [Signature.positional, same, sorted.takeWhile_parameters]
  constructor
  case positional => exact positional
  case requiredCount => rw [requiredCount, positional, sorted.countP_required]
  case variadic =>
    rw [variadic?, find?_kind_eq_head?, same, sorted.filter_parameters, Option.head?_toList]
  case keywordOnly => rw [Signature.keywordOnly, same, sorted.filter_parameters]
  case keywordCollector =>
    rw [keywordCollector?, find?_kind_eq_head?, same, sorted.filter_parameters,
      Option.head?_toList]

theorem positional_eq_filter (s : Signature) :
    s.positional = s.parameters.filter (·.kind = .positional) := by
  obtain ⟨_, _, reading, sorted, same⟩ := s.grammatical
  rw [(readAs sorted same).positional, same, sorted.filter_parameters]

/-- A signature has one collector of each kind at most, so the first is the only one. -/
theorem find?_collector_iff {kind : ParameterKind} (collector : kind.isCollector) :
    s.parameters.find? (·.kind = kind) = some p ↔ p ∈ s.parameters ∧ p.kind = kind := by
  obtain ⟨_, _, reading, sorted, same⟩ := s.grammatical
  have group : ∃ found : Option Parameter,
      s.parameters.filter (·.kind = kind) = found.toList := by
    rw [same, sorted.filter_parameters]
    cases kind with
    | variadic => exact ⟨reading.variadic, rfl⟩
    | keywordCollector => exact ⟨reading.keywordCollector, rfl⟩
    | positional | keywordOnly => cases collector
  obtain ⟨found, group⟩ := group
  have member : p ∈ s.parameters.filter (·.kind = kind) ↔ p ∈ s.parameters ∧ p.kind = kind := by
    rw [List.mem_filter, decide_eq_true_iff]
  rw [find?_kind_eq_head?, ← member, group, Option.head?_toList, Option.mem_toList]

theorem Pass.Follows.locate {pass : Pass} (follows : pass.Follows s.parameters) :
    pass.toNotes.Locate s := by
  have beginning : s.positional <+: s.parameters := List.takeWhile_prefix _
  have count : pass.positionalCount = s.positional.length := by
    rw [follows.positionalCount, positional_eq_filter]
  constructor
  case inside => exact count ▸ beginning.length_le
  case positional =>
    rw [count]
    exact (List.prefix_iff_eq_take.mp beginning).symm
  case variadic =>
    rw [follows.variadicPlace]
    exact map_findIdx?_getElem? _
  case keywordCollector =>
    rw [follows.keywordCollectorPlace]
    exact map_findIdx?_getElem? _

theorem describes (s : Signature) : s.Describes s.parameters where
  same := rfl
  positional := s.positional_eq_filter
  variadic _ := find?_collector_iff rfl
  keywordCollector _ := find?_collector_iff rfl
  place _ _ := s.positionOf?_of_getElem?
  absent name := by
    rw [positionOf?, List.findIdx?_eq_none_iff]
    simp only [decide_eq_false_iff_not, ne_eq]
  requiredCount := by
    obtain ⟨_, _, reading, sorted, same⟩ := s.grammatical
    have parts := readAs sorted same
    rw [parts.requiredCount, parts.positional, sorted.takeWhile_required]
  groups _ := readAs
  located := by
    obtain ⟨final, accepted⟩ := s.accepted
    refine ⟨s.parameters.foldl Pass.record {}, ?_, ?_⟩
    · have start : ({} : Pass).scan = {} := rfl
      rw [Pass.run_eq, start, accepted]
      rfl
    · exact (Pass.follows_start.foldl s.grammatical.orderly).locate

theorem exists_stopsAt {error : SignatureError} (refused : ofParameters parameters = .error error) :
    ∃ i, StopsAt parameters error i := by
  obtain ⟨before, p, after, rfl, named, stopped, good, bad⟩ :=
    Scan.exists_breach .start orderly_nil (ofParameters_eq_error_iff.mp refused)
  rw [List.nil_append] at good bad
  have upTo : (before ++ p :: after).take before.length = before := List.take_left
  have upToBreach : (before ++ p :: after).take (before.length + 1) = before ++ [p] := by
    rw [List.append_cons]
    exact List.take_left' (by rw [List.length_append, List.length_singleton])
  refine ⟨before.length, ?_⟩
  constructor
  case parameter =>
    rw [List.getElem?_append_right (Nat.le_refl _), Nat.sub_self, named]
    rfl
  case before =>
    rw [upTo]
    exact exists_ofParameters_iff.mpr good.grammatical
  case refused =>
    rw [upToBreach]
    exact ofParameters_eq_error_iff.mpr stopped
  case least =>
    constructor
    · intro grammatical
      rw [upToBreach] at grammatical
      exact bad grammatical.orderly
    · intro j refused
      -- A shorter beginning is a beginning of what was in order.
      apply Nat.le_of_not_lt
      intro shorter
      refine refused ((good.sublist ?_).grammatical)
      rw [List.take_append_of_le_length shorter]
      exact List.take_sublist _ _

/--
A parameter list is accepted exactly if it is in the grammar.  An accepted list
is described by its signature, and a refused one is reported at the parameter
that ends the shortest beginning outside of the grammar.
-/
theorem ofParameters_follows_grammar (parameters : List Parameter) :
    ((∃ s, ofParameters parameters = .ok s) ↔ Grammatical parameters) ∧
      (∀ s, ofParameters parameters = .ok s → s.Describes parameters) ∧
      ∀ error, ofParameters parameters = .error error →
        Pass.run {} parameters = .error error ∧ ∃ i, StopsAt parameters error i := by
  refine ⟨exists_ofParameters_iff, fun s accepted => ?_, fun error refused => ⟨?_, ?_⟩⟩
  · exact ofParameters_eq_ok_iff.mp accepted ▸ s.describes
  · have start : ({} : Pass).scan = {} := rfl
    rw [Pass.run_eq, start, ofParameters_eq_error_iff.mp refused]
    rfl
  · exact exists_stopsAt refused

theorem every_kind_accepted_and_default_before_required_refused :
    (∃ s, ofParameters [⟨"first", .positional, none⟩,
        ⟨"second", .positional, some (.fresh .emptyList)⟩, ⟨"rest", .variadic, none⟩,
        ⟨"flag", .keywordOnly, some (.shared (.bool false))⟩, ⟨"mode", .keywordOnly, none⟩,
        ⟨"more", .keywordCollector, none⟩] = .ok s ∧ s.Describes s.parameters) ∧
      ∃ i, StopsAt [⟨"first", .positional, none⟩,
          ⟨"second", .positional, some (.fresh .emptyList)⟩, ⟨"third", .positional, none⟩,
          ⟨"first", .variadic, none⟩] ⟨.nonDefaultAfterDefault, "third"⟩ i :=
  ⟨⟨_, rfl, (ofParameters_follows_grammar _).2.1 _ rfl⟩,
    ((ofParameters_follows_grammar _).2.2 _ rfl).2⟩

end Signature

end ScriptCore
