import ScriptCore.Signature

/-!
# The layout of a signature

Acceptance looks at one parameter at a time and remembers in flags what came
before it.  Any two parameters of an accepted list therefore stand in a fixed
relation, and the list reads positional parameters, variadic collector,
keyword-only parameters, keyword collector.
-/

namespace ScriptCore

/-! ## Parameters that may stand in one signature -/

/-- The place of a kind in a signature. -/
def ParameterKind.rank : ParameterKind → Nat
  | positional => 0
  | variadic => 1
  | keywordOnly => 2
  | keywordCollector => 3

theorem ParameterKind.eq_keywordCollector {kind : ParameterKind}
    (bound : keywordCollector.rank ≤ kind.rank) : kind = keywordCollector := by
  cases kind with
  | keywordCollector => rfl
  | _ => exact absurd bound (by decide)

namespace Parameter

/-- Whether a signature may have the first parameter somewhere before the second. -/
structure MayPrecede (p q : Parameter) : Prop where
  distinct : p.name ≠ q.name
  ordered : p.kind.rank < q.kind.rank ∨ p.kind = q.kind ∧ p.isCollector = false
  defaulted : p.kind = .positional → q.kind = .positional → p.hasDefault → q.hasDefault

theorem MayPrecede.rank_le {p q : Parameter} (precedes : p.MayPrecede q) :
    p.kind.rank ≤ q.kind.rank := by
  rcases precedes.ordered with lower | ⟨same, _⟩
  · exact Nat.le_of_lt lower
  · exact Nat.le_of_eq (congrArg ParameterKind.rank same)

/-- Nothing of the same kind follows a collector. -/
theorem MayPrecede.kind_ne {p q : Parameter} (precedes : p.MayPrecede q)
    (collector : p.isCollector) : q.kind ≠ p.kind := by
  intro same
  rcases precedes.ordered with lower | ⟨_, plain⟩
  · rw [same] at lower
    exact Nat.lt_irrefl _ lower
  · rw [plain] at collector
    cases collector

end Parameter

namespace Signature

/-! ## What a scan remembers -/

/-- The scan after one more parameter, whatever its place. -/
def Scan.record (scan : Scan) (p : Parameter) : Scan where
  names := p.name :: scan.names
  defaulted := scan.defaulted || p.kind = .positional && p.hasDefault
  variadic := scan.variadic || p.kind = .variadic
  keywordOnly := scan.keywordOnly || p.kind = .keywordOnly
  keywordCollector := scan.keywordCollector || p.kind = .keywordCollector

/-- The conditions under which a scan accepts one more parameter. -/
structure Scan.Admits (scan : Scan) (p : Parameter) : Prop where
  fresh : p.name ∉ scan.names
  last : scan.keywordCollector = false
  plain : p.isCollector → p.hasDefault = false
  positional : p.kind = .positional →
    scan.variadic = false ∧ scan.keywordOnly = false ∧ (scan.defaulted → p.hasDefault)
  variadic : p.kind = .variadic → scan.variadic = false ∧ scan.keywordOnly = false

section Step

variable {scan : Scan} {p : Parameter} (fresh : p.name ∉ scan.names)
  (last : scan.keywordCollector = false) (plain : p.isCollector → p.hasDefault = false)

include fresh last plain

theorem Scan.admits_positional_iff (kind : p.kind = .positional) :
    scan.Admits p ↔
      scan.variadic = false ∧ scan.keywordOnly = false ∧ (scan.defaulted → p.hasDefault) := by
  constructor
  · intro admits
    exact admits.positional kind
  · intro free
    exact ⟨fresh, last, plain, fun _ => free, by simp [kind]⟩

theorem Scan.admits_variadic_iff (kind : p.kind = .variadic) :
    scan.Admits p ↔ scan.variadic = false ∧ scan.keywordOnly = false := by
  constructor
  · intro admits
    exact admits.variadic kind
  · intro free
    exact ⟨fresh, last, plain, by simp [kind], fun _ => free⟩

/-- From the keyword-only parameters on, no flag but the last one matters. -/
theorem Scan.admits_of_keyword (kind : p.kind = .keywordOnly ∨ p.kind = .keywordCollector) :
    scan.Admits p := by
  refine ⟨fresh, last, plain, fun same => ?_, fun same => ?_⟩
  all_goals
    rw [same] at kind
    simp at kind

end Step

/-- A parameter is accepted exactly under these conditions, and then it is recorded. -/
theorem Scan.step_eq_ok_iff {scan next : Scan} {p : Parameter} :
    scan.step p = .ok next ↔ scan.Admits p ∧ next = scan.record p := by
  unfold Scan.step
  dsimp only
  by_cases known : p.name ∈ scan.names
  · rw [if_pos known]
    exact ⟨nofun, fun accepted => absurd known accepted.1.fresh⟩
  rw [if_neg known]
  cases last : scan.keywordCollector with
  | true =>
      refine ⟨nofun, fun accepted => ?_⟩
      rw [accepted.1.last] at last
      cases last
  | false =>
      rw [if_neg Bool.false_ne_true]
      by_cases given : p.isCollector ∧ p.hasDefault
      · rw [if_pos given]
        refine ⟨nofun, fun accepted => ?_⟩
        have none := accepted.1.plain given.1
        rw [given.2] at none
        cases none
      · have plain : p.isCollector → p.hasDefault = false := fun collector => by
          simpa [collector] using given
        rw [if_neg given]
        cases kind : p.kind with
        | positional =>
            rw [Scan.admits_positional_iff known last plain kind]
            cases variadic : scan.variadic with
            | true => simp
            | false =>
                cases keywordOnly : scan.keywordOnly with
                | true => simp
                | false =>
                    have recorded : scan.record p =
                        { names := p.name :: scan.names
                          defaulted := scan.defaulted || p.hasDefault } := by
                      simp [Scan.record, kind, last, variadic, keywordOnly]
                    rw [recorded]
                    cases p.hasDefault <;> cases scan.defaulted <;> simp [eq_comm]
        | variadic =>
            rw [Scan.admits_variadic_iff known last plain kind]
            cases scan.variadic with
            | true => simp
            | false =>
                cases keywordOnly : scan.keywordOnly with
                | true => simp
                | false =>
                    have recorded : scan.record p =
                        { scan with names := p.name :: scan.names, variadic := true } := by
                      simp [Scan.record, kind, last, keywordOnly]
                    simp [recorded, keywordOnly, last, eq_comm]
        | keywordOnly =>
            have admits := Scan.admits_of_keyword known last plain (.inl kind)
            have recorded : scan.record p =
                { scan with names := p.name :: scan.names, keywordOnly := true } := by
              simp [Scan.record, kind, last]
            rw [recorded]
            simp [admits, last, eq_comm]
        | keywordCollector =>
            have admits := Scan.admits_of_keyword known last plain (.inr kind)
            have recorded : scan.record p =
                { scan with names := p.name :: scan.names, keywordCollector := true } := by
              simp [Scan.record, kind]
            rw [recorded]
            simp [admits, eq_comm]

/-- What the flags of a scan keep of a parameter that was seen. -/
structure Scan.Remembers (scan : Scan) (q : Parameter) : Prop where
  name : q.name ∈ scan.names
  defaulted : q.kind = .positional → q.hasDefault → scan.defaulted
  variadic : q.kind = .variadic → scan.variadic
  keywordOnly : q.kind = .keywordOnly → scan.keywordOnly
  keywordCollector : q.kind = .keywordCollector → scan.keywordCollector

theorem Scan.remembers_record (scan : Scan) (p : Parameter) : (scan.record p).Remembers p where
  name := List.mem_cons_self
  defaulted := by intro kind given; simp [Scan.record, kind, given]
  variadic := by intro kind; simp [Scan.record, kind]
  keywordOnly := by intro kind; simp [Scan.record, kind]
  keywordCollector := by intro kind; simp [Scan.record, kind]

theorem Scan.Remembers.record {scan : Scan} {q : Parameter} (remembers : scan.Remembers q)
    (p : Parameter) : (scan.record p).Remembers q where
  name := List.mem_cons_of_mem _ remembers.name
  defaulted := by intro kind given; simp [Scan.record, remembers.defaulted kind given]
  variadic := by intro kind; simp [Scan.record, remembers.variadic kind]
  keywordOnly := by intro kind; simp [Scan.record, remembers.keywordOnly kind]
  keywordCollector := by intro kind; simp [Scan.record, remembers.keywordCollector kind]

/-- A parameter that is accepted may follow every parameter seen before. -/
theorem Scan.Admits.mayPrecede {scan : Scan} {p q : Parameter} (admits : scan.Admits p)
    (remembers : scan.Remembers q) : q.MayPrecede p := by
  have distinct : q.name ≠ p.name := fun same => admits.fresh (same ▸ remembers.name)
  have notLast : q.kind ≠ .keywordCollector := fun kind => by
    have closed := remembers.keywordCollector kind
    rw [admits.last] at closed
    cases closed
  have variadicSeen := remembers.variadic
  have keywordOnlySeen := remembers.keywordOnly
  have positional := admits.positional
  have variadic := admits.variadic
  refine ⟨distinct, ?_, ?_⟩
  · cases qKind : q.kind <;> cases pKind : p.kind <;>
      simp_all [ParameterKind.rank, Parameter.isCollector, ParameterKind.isCollector]
  · intro qKind pKind given
    exact (positional pKind).2.2 (remembers.defaulted qKind given)

/--
In an accepted list any two parameters may stand in their order, each may
follow what was seen before, and no collector has a default.
-/
theorem Scan.run_eq_ok {scan final : Scan} {parameters : List Parameter}
    (accepted : scan.run parameters = .ok final) :
    parameters.Pairwise Parameter.MayPrecede ∧
      (∀ q, scan.Remembers q → ∀ p ∈ parameters, q.MayPrecede p) ∧
      ∀ p ∈ parameters, p.isCollector → p.hasDefault = false := by
  induction parameters generalizing scan with
  | nil => exact ⟨.nil, by simp, by simp⟩
  | cons p rest ih =>
      unfold Scan.run at accepted
      cases step : scan.step p with
      | error fault => rw [step] at accepted; cases accepted
      | ok next =>
          rw [step] at accepted
          obtain ⟨admits, rfl⟩ := Scan.step_eq_ok_iff.mp step
          obtain ⟨inner, across, plain⟩ := ih accepted
          refine ⟨.cons (across p (scan.remembers_record p)) inner, ?_, ?_⟩
          · intro q remembers r member
            rcases List.mem_cons.mp member with rfl | later
            · exact admits.mayPrecede remembers
            · exact across q (remembers.record p) r later
          · intro q member collector
            rcases List.mem_cons.mp member with rfl | later
            · exact admits.plain collector
            · exact plain q later collector

/-! ## The four groups -/

/-- Parameters of at least the rank of a variadic collector: none is positional. -/
theorem takeWhile_isPositional_eq_nil {parameters : List Parameter}
    (later : ∀ p ∈ parameters, 0 < p.kind.rank) :
    parameters.takeWhile (·.isPositional) = [] := by
  cases parameters with
  | nil => rfl
  | cons p rest =>
      have notPositional : p.isPositional = false := by
        have positive := later p List.mem_cons_self
        cases kind : p.kind <;> simp_all [Parameter.isPositional, ParameterKind.rank]
      simp [notPositional]

/-- No parameter of this kind. -/
theorem find?_kind_eq_none {parameters : List Parameter} {kind : ParameterKind}
    (other : ∀ p ∈ parameters, p.kind ≠ kind) : parameters.find? (·.kind = kind) = none := by
  rw [List.find?_eq_none]
  intro p member
  simpa using other p member

/-- Parameters in signature order fall into the four groups, one after the other. -/
theorem eq_append_of_pairwise {parameters : List Parameter}
    (ordered : parameters.Pairwise Parameter.MayPrecede) :
    parameters =
      parameters.takeWhile (·.isPositional) ++
        (parameters.find? (·.kind = .variadic)).toList ++
        parameters.filter (·.kind = .keywordOnly) ++
        (parameters.find? (·.kind = .keywordCollector)).toList := by
  induction ordered with
  | nil => rfl
  | @cons p rest head tail ih =>
      have above : ∀ q ∈ rest, p.kind.rank ≤ q.kind.rank := fun q member =>
        (head q member).rank_le
      cases kind : p.kind with
      | positional =>
          rw [kind] at above
          simpa [Parameter.isPositional, kind] using ih
      | variadic =>
          have noPositional : rest.takeWhile (·.isPositional) = [] :=
            takeWhile_isPositional_eq_nil fun q member => by
              have bound := above q member
              rw [kind] at bound
              exact bound
          have noVariadic : rest.find? (·.kind = .variadic) = none :=
            find?_kind_eq_none fun q member => by
              have other := (head q member).kind_ne (by
                simp [Parameter.isCollector, ParameterKind.isCollector, kind])
              rwa [kind] at other
          rw [noPositional, noVariadic] at ih
          simpa [Parameter.isPositional, kind] using ih
      | keywordOnly =>
          have noPositional : rest.takeWhile (·.isPositional) = [] :=
            takeWhile_isPositional_eq_nil fun q member => by
              have bound := above q member
              rw [kind] at bound
              exact Nat.lt_of_lt_of_le (by decide) bound
          have noVariadic : rest.find? (·.kind = .variadic) = none :=
            find?_kind_eq_none fun q member same => by
              have bound := above q member
              rw [kind, same] at bound
              exact absurd bound (by decide)
          rw [noPositional, noVariadic] at ih
          simpa [Parameter.isPositional, kind, noVariadic] using ih
      | keywordCollector =>
          have nothing : rest = [] := by
            cases rest with
            | nil => rfl
            | cons q rest =>
                have other := (head q List.mem_cons_self).kind_ne (by
                  simp [Parameter.isCollector, ParameterKind.isCollector, kind])
                have bound := above q List.mem_cons_self
                rw [kind] at other bound
                exact absurd (ParameterKind.eq_keywordCollector bound) other
          simp [nothing, Parameter.isPositional, kind]

/-! ## Accepted lists -/

variable (s : Signature)

theorem pairwise_mayPrecede : s.parameters.Pairwise Parameter.MayPrecede := by
  obtain ⟨final, accepted⟩ := s.accepted
  exact (Scan.run_eq_ok accepted).1

/-- No two parameters share a name. -/
theorem names_nodup : (s.parameters.map (·.name)).Nodup :=
  List.pairwise_map.mpr (s.pairwise_mayPrecede.imp (·.distinct))

/-- A parameter is found by its name where it stands. -/
theorem positionOf?_of_getElem? {i : Nat} {p : Parameter} (place : s.parameters[i]? = some p) :
    s.positionOf? p.name = some i := by
  obtain ⟨inside, same⟩ := List.getElem?_eq_some_iff.mp place
  refine List.findIdx?_eq_some_iff_getElem.mpr ⟨inside, by simp [same], fun j before => ?_⟩
  have apart := (List.pairwise_iff_getElem.mp s.pairwise_mayPrecede) j i
    (Nat.lt_trans before inside) inside before
  rw [same] at apart
  simpa using apart.distinct

/-- The four groups of parameters in declaration order. -/
theorem parameters_eq_append :
    s.parameters =
      s.positional ++ s.variadic?.toList ++ s.keywordOnly ++ s.keywordCollector?.toList :=
  eq_append_of_pairwise s.pairwise_mayPrecede

variable {s}

theorem kind_of_mem_positional {p : Parameter} (member : p ∈ s.positional) :
    p.kind = .positional := by
  have held := List.all_eq_true.mp List.all_takeWhile p member
  simpa [Parameter.isPositional] using held

theorem kind_of_variadic? {p : Parameter} (found : s.variadic? = some p) : p.kind = .variadic := by
  simpa using List.find?_some found

theorem kind_of_mem_keywordOnly {p : Parameter} (member : p ∈ s.keywordOnly) :
    p.kind = .keywordOnly := by
  simpa using (List.mem_filter.mp member).2

theorem kind_of_keywordCollector? {p : Parameter} (found : s.keywordCollector? = some p) :
    p.kind = .keywordCollector := by
  simpa using List.find?_some found

end Signature

end ScriptCore
