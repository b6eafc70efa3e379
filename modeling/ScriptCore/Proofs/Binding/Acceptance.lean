import ScriptCore.Proofs.Binding.ClosedForm

/-!
# Which calls are accepted, and what the others break first

Acceptance is stated over the signature and the arguments alone: five
conditions on a call, and for a call that violates one of them the first check
that fails, in the order in which checks are made.
-/

namespace ScriptCore.Binding

/-- The first item of a list that is bad. -/
def IsFirst {α : Type} (items : List α) (bad : α → Prop) (item : α) : Prop :=
  ∃ before after, items = before ++ item :: after ∧ bad item ∧ ∀ other ∈ before, ¬ bad other

theorem find?_eq_some_iff_isFirst {α : Type} {items : List α} {test : α → Bool} {item : α} :
    items.find? test = some item ↔ IsFirst items (test · = true) item := by
  rw [List.find?_eq_some_iff_append]
  constructor
  · rintro ⟨bad, before, after, split, fine⟩
    exact ⟨before, after, split, bad, fun other member => by simpa using fine other member⟩
  · rintro ⟨before, after, split, bad, fine⟩
    exact ⟨bad, before, after, split, fun other member => by simpa using fine other member⟩

/-- The names of the keywords of a call, in call order. -/
def given (a : Arguments) : List Name := a.keywords.map (·.1)

/-! ## The conditions on a call -/

/-- Positional arguments beyond the positional parameters need a variadic collector. -/
def Fits (s : Signature) (a : Arguments) : Prop :=
  a.positional.length ≤ s.positional.length ∨ s.variadic?.isSome

/-- What a call has to satisfy. -/
structure Accepts (s : Signature) (a : Arguments) : Prop where
  /-- No keyword is given twice. -/
  distinct : (given a).Nodup
  fits : Fits s a
  /-- No keyword names a parameter that is given by position. -/
  once : ∀ p ∈ filled s a, p.name ∉ given a
  /-- Every other parameter has a keyword or a default. -/
  complete : ∀ p ∈ requested s a, p.name ∈ given a ∨ p.hasDefault
  /-- Every keyword names one of these other parameters, or is collected. -/
  known : s.keywordCollector?.isSome ∨
    ∀ keyword ∈ given a, ∃ p ∈ requested s a, p.name = keyword

/-- The cause reported for a call: the first check that fails, those before it having passed. -/
inductive FirstFault (function : Name) (s : Signature) (a : Arguments) : Cause → Prop where
  | repeated {before after : List Name} {keyword : Name}
      (split : given a = before ++ keyword :: after) (distinct : before.Nodup)
      (again : keyword ∈ before) : FirstFault function s a (.repeatedKeyword function keyword)
  | overflow (distinct : (given a).Nodup) (noCollector : s.variadic? = none)
      (more : s.positional.length < a.positional.length) :
      FirstFault function s a
        (.tooManyPositional function s.positional.length a.positional.length)
  | multiple {p : Parameter} (distinct : (given a).Nodup) (fits : Fits s a)
      (first : IsFirst (filled s a) (fun q => q.name ∈ given a) p) :
      FirstFault function s a (.multipleValues function p.name)
  | missing {p : Parameter} (distinct : (given a).Nodup) (fits : Fits s a)
      (once : ∀ q ∈ filled s a, q.name ∉ given a)
      (first : IsFirst (requested s a)
        (fun q => q.name ∉ given a ∧ q.hasDefault = false) p) :
      FirstFault function s a (.missingArgument function p.name)
  | unexpected {keyword : Name} (distinct : (given a).Nodup) (fits : Fits s a)
      (once : ∀ q ∈ filled s a, q.name ∉ given a)
      (complete : ∀ q ∈ requested s a, q.name ∈ given a ∨ q.hasDefault)
      (noCollector : s.keywordCollector? = none)
      (first : IsFirst (given a) (fun name => ∀ q ∈ requested s a, q.name ≠ name) keyword) :
      FirstFault function s a (.unexpectedKeyword function keyword)

/-! ## The checks -/

/-- The earliest name that repeats an earlier one. -/
theorem firstRepeated_eq_some_iff {seen names : List Name} {name : Name} :
    firstRepeated seen names = some name ↔
      ∃ before after, names = before ++ name :: after ∧ before.Nodup ∧
        (∀ other ∈ before, other ∉ seen) ∧ (name ∈ before ∨ name ∈ seen) := by
  induction names generalizing seen with
  | nil => simp [firstRepeated]
  | cons head rest ih =>
      by_cases known : head ∈ seen
      · rw [firstRepeated, if_pos known]
        constructor
        · intro same
          cases same
          exact ⟨[], rest, rfl, .nil, by simp, .inr known⟩
        · rintro ⟨before, after, split, _, fresh, _⟩
          cases before with
          | nil =>
              cases split
              rfl
          | cons other before =>
              cases split
              exact absurd known (fresh head List.mem_cons_self)
      · rw [firstRepeated, if_neg known, ih]
        constructor
        · rintro ⟨before, after, rfl, distinct, fresh, again⟩
          refine ⟨head :: before, after, rfl, ?_, ?_, ?_⟩
          · exact List.nodup_cons.mpr
              ⟨fun member => fresh head member List.mem_cons_self, distinct⟩
          · intro other member
            rcases List.mem_cons.mp member with rfl | later
            · exact known
            · exact fun earlier => fresh other later (List.mem_cons_of_mem _ earlier)
          · rcases again with member | member
            · exact .inl (List.mem_cons_of_mem _ member)
            · rcases List.mem_cons.mp member with rfl | earlier
              · exact .inl List.mem_cons_self
              · exact .inr earlier
        · rintro ⟨before, after, split, distinct, fresh, again⟩
          cases before with
          | nil =>
              cases split
              rcases again with member | member
              · cases member
              · exact absurd member known
          | cons other before =>
              cases split
              rw [List.nodup_cons] at distinct
              refine ⟨before, after, rfl, distinct.2, ?_, ?_⟩
              · intro name member
                rw [List.mem_cons, not_or]
                exact ⟨fun same => distinct.1 (same ▸ member),
                  fresh name (List.mem_cons_of_mem _ member)⟩
              · rcases again with member | member
                · rcases List.mem_cons.mp member with rfl | later
                  · exact .inr List.mem_cons_self
                  · exact .inl later
                · exact .inr (List.mem_cons_of_mem _ member)

section Checks

variable {function : Name} {s : Signature} {a : Arguments}

theorem not_overflow_iff :
    ¬ (s.variadic?.isNone ∧ s.positional.length < a.positional.length) ↔ Fits s a := by
  unfold Fits
  cases s.variadic? <;> simp

theorem lacks_iff (p : Parameter) :
    lacks a.keywords p = true ↔ p.name ∉ given a ∧ p.hasDefault = false := by
  simp [lacks, given]

/-- No keyword is left over exactly if each names a requested parameter. -/
theorem unexpected_eq_none_iff :
    unexpected function s.keywordCollector? (leftover (requested s a) a.keywords) = none ↔
      s.keywordCollector?.isSome ∨
        ∀ keyword ∈ given a, ∃ p ∈ requested s a, p.name = keyword := by
  cases s.keywordCollector? with
  | some p => simp [unexpected]
  | none =>
      have nothing : leftover (requested s a) a.keywords = [] ↔
          ∀ keyword ∈ given a, ∃ p ∈ requested s a, p.name = keyword := by
        simp [leftover, given, List.filter_eq_nil_iff]
      rw [← nothing]
      cases leftover (requested s a) a.keywords <;> simp [unexpected]

/-- The keyword reported as unexpected is the first that names no requested parameter. -/
theorem unexpected_eq_some_iff {cause : Cause} :
    unexpected function s.keywordCollector? (leftover (requested s a) a.keywords) = some cause ↔
      s.keywordCollector? = none ∧
        ∃ keyword, IsFirst (given a) (fun name => ∀ q ∈ requested s a, q.name ≠ name) keyword ∧
          cause = .unexpectedKeyword function keyword := by
  cases s.keywordCollector? with
  | some p => simp [unexpected]
  | none =>
      have shape : unexpected function none (leftover (requested s a) a.keywords) =
          ((leftover (requested s a) a.keywords).head?.map (·.1)).map
            (.unexpectedKeyword function) := by
        cases leftover (requested s a) a.keywords <;> rfl
      have head : (leftover (requested s a) a.keywords).head?.map (·.1) =
          (given a).find? fun name => name ∉ (requested s a).map (·.name) := by
        rw [leftover, List.head?_filter, given, List.find?_map]
        rfl
      rw [shape, head, Option.map_eq_some_iff]
      simp only [find?_eq_some_iff_isFirst, true_and]
      constructor
      · rintro ⟨keyword, first, rfl⟩
        exact ⟨keyword, by simpa [IsFirst] using first, rfl⟩
      · rintro ⟨keyword, first, rfl⟩
        exact ⟨keyword, by simpa [IsFirst] using first, rfl⟩

/-- The checks that are left once keywords are distinct and positional arguments fit. -/
theorem fault_of_fits (distinct : (given a).Nodup) (fits : Fits s a) :
    fault function s a =
      match (filled s a).find? (·.name ∈ given a) with
      | some p => some (.multipleValues function p.name)
      | none => match (requested s a).find? (lacks a.keywords) with
          | some p => some (.missingArgument function p.name)
          | none =>
              unexpected function s.keywordCollector? (leftover (requested s a) a.keywords) := by
  have noRepeat : firstRepeated [] (given a) = none :=
    firstRepeated_eq_none_iff.mpr ⟨distinct, by simp⟩
  unfold fault
  dsimp only
  rw [show a.keywords.map (·.1) = given a from rfl, noRepeat]
  exact if_neg (not_overflow_iff.mpr fits)

theorem find?_filled_eq_none_iff :
    (filled s a).find? (·.name ∈ given a) = none ↔ ∀ p ∈ filled s a, p.name ∉ given a := by
  simp [List.find?_eq_none]

theorem find?_requested_eq_none_iff :
    (requested s a).find? (lacks a.keywords) = none ↔
      ∀ p ∈ requested s a, p.name ∈ given a ∨ p.hasDefault := by
  rw [List.find?_eq_none]
  refine forall_congr' fun p => forall_congr' fun _ => ?_
  rw [lacks_iff]
  by_cases present : p.name ∈ given a <;> simp [present]

theorem find?_filled_eq_some_iff {p : Parameter} :
    (filled s a).find? (·.name ∈ given a) = some p ↔
      IsFirst (filled s a) (fun q => q.name ∈ given a) p := by
  rw [find?_eq_some_iff_isFirst]
  simp only [decide_eq_true_eq]

theorem find?_requested_eq_some_iff {p : Parameter} :
    (requested s a).find? (lacks a.keywords) = some p ↔
      IsFirst (requested s a) (fun q => q.name ∉ given a ∧ q.hasDefault = false) p := by
  rw [find?_eq_some_iff_isFirst]
  simp only [lacks_iff]

theorem fault_of_repeated {keyword : Name} (again : firstRepeated [] (given a) = some keyword) :
    fault function s a = some (.repeatedKeyword function keyword) := by
  unfold fault
  dsimp only
  rw [show a.keywords.map (·.1) = given a from rfl, again]

theorem fault_of_overflow (distinct : (given a).Nodup) (overflow : ¬ Fits s a) :
    fault function s a =
      some (.tooManyPositional function s.positional.length a.positional.length) := by
  have noRepeat : firstRepeated [] (given a) = none :=
    firstRepeated_eq_none_iff.mpr ⟨distinct, by simp⟩
  unfold fault
  dsimp only
  rw [show a.keywords.map (·.1) = given a from rfl, noRepeat]
  exact if_pos (Decidable.of_not_not (mt not_overflow_iff.mp overflow))

/-- A fault is the first check that fails. -/
theorem firstFault_of_fault {cause : Cause} (found : fault function s a = some cause) :
    FirstFault function s a cause := by
  cases repeated : firstRepeated [] (given a) with
  | some keyword =>
      rw [fault_of_repeated repeated] at found
      cases found
      obtain ⟨before, after, split, distinct, _, again⟩ := firstRepeated_eq_some_iff.mp repeated
      exact .repeated split distinct (again.resolve_right List.not_mem_nil)
  | none =>
      have distinct := (firstRepeated_eq_none_iff.mp repeated).1
      by_cases fits : Fits s a
      · rw [fault_of_fits distinct fits] at found
        cases twice : (filled s a).find? (·.name ∈ given a) with
        | some p =>
            rw [twice] at found
            cases found
            exact .multiple distinct fits (find?_filled_eq_some_iff.mp twice)
        | none =>
            have once := find?_filled_eq_none_iff.mp twice
            rw [twice] at found
            cases lacking : (requested s a).find? (lacks a.keywords) with
            | some p =>
                simp only [lacking] at found
                cases found
                exact .missing distinct fits once (find?_requested_eq_some_iff.mp lacking)
            | none =>
                have complete := find?_requested_eq_none_iff.mp lacking
                simp only [lacking] at found
                obtain ⟨noCollector, keyword, first, rfl⟩ := unexpected_eq_some_iff.mp found
                exact .unexpected distinct fits once complete noCollector first
      · rw [fault_of_overflow distinct fits] at found
        cases found
        have overflow := Decidable.of_not_not (mt not_overflow_iff.mp fits)
        exact .overflow distinct (Option.isNone_iff_eq_none.mp overflow.1) overflow.2

/-- The first check that fails is the fault. -/
theorem fault_of_firstFault {cause : Cause} (first : FirstFault function s a cause) :
    fault function s a = some cause := by
  cases first with
  | repeated split distinct again =>
      exact fault_of_repeated (firstRepeated_eq_some_iff.mpr
        ⟨_, _, split, distinct, by simp, .inl again⟩)
  | overflow distinct noCollector more =>
      refine fault_of_overflow distinct fun fits => ?_
      exact not_overflow_iff.mpr fits ⟨Option.isNone_iff_eq_none.mpr noCollector, more⟩
  | multiple distinct fits first =>
      rw [fault_of_fits distinct fits, find?_filled_eq_some_iff.mpr first]
  | missing distinct fits once first =>
      rw [fault_of_fits distinct fits, find?_filled_eq_none_iff.mpr once]
      simp only [find?_requested_eq_some_iff.mpr first]
  | unexpected distinct fits once complete noCollector first =>
      rw [fault_of_fits distinct fits, find?_filled_eq_none_iff.mpr once]
      simp only [find?_requested_eq_none_iff.mpr complete]
      exact unexpected_eq_some_iff.mpr ⟨noCollector, _, first, rfl⟩

theorem fault_eq_some_iff {cause : Cause} :
    fault function s a = some cause ↔ FirstFault function s a cause :=
  ⟨firstFault_of_fault, fault_of_firstFault⟩

theorem fault_eq_none_iff : fault function s a = none ↔ Accepts s a := by
  constructor
  · intro clean
    have distinct : (given a).Nodup := by
      cases repeated : firstRepeated [] (given a) with
      | some keyword =>
          rw [fault_of_repeated repeated] at clean
          cases clean
      | none => exact (firstRepeated_eq_none_iff.mp repeated).1
    have fits : Fits s a := Classical.byContradiction fun overflow => by
      rw [fault_of_overflow distinct overflow] at clean
      cases clean
    rw [fault_of_fits distinct fits] at clean
    cases twice : (filled s a).find? (·.name ∈ given a) with
    | some p => rw [twice] at clean; cases clean
    | none =>
        rw [twice] at clean
        cases lacking : (requested s a).find? (lacks a.keywords) with
        | some p => simp only [lacking] at clean; cases clean
        | none =>
            simp only [lacking] at clean
            exact ⟨distinct, fits, find?_filled_eq_none_iff.mp twice,
              find?_requested_eq_none_iff.mp lacking, unexpected_eq_none_iff.mp clean⟩
  · rintro ⟨distinct, fits, once, complete, known⟩
    rw [fault_of_fits distinct fits, find?_filled_eq_none_iff.mpr once]
    simp only [find?_requested_eq_none_iff.mpr complete]
    exact unexpected_eq_none_iff.mpr known

end Checks

/--
A call is accepted exactly under the five conditions; a call that is not
accepted is answered with the first check that fails, and nothing else is ever
reported.
-/
theorem bind_accepts_or_reports_first_fault (function : Name) (s : Signature) (a : Arguments)
    (heap : Heap) :
    ((∃ result, bind function s a heap = .ok result) ↔ Accepts s a) ∧
      ∀ error, bind function s a heap = .error error ↔
        ∃ cause, FirstFault function s a cause ∧ error = .ofCause cause := by
  rw [bind_eq]
  cases checked : fault function s a with
  | none =>
      have accepts := fault_eq_none_iff.mp checked
      refine ⟨⟨fun _ => accepts, fun _ => ⟨_, rfl⟩⟩, fun error => ⟨nofun, ?_⟩⟩
      rintro ⟨cause, first, _⟩
      rw [fault_eq_some_iff.mpr first] at checked
      cases checked
  | some cause =>
      refine ⟨⟨nofun, fun accepts => ?_⟩, fun error => ⟨?_, ?_⟩⟩
      · rw [fault_eq_none_iff.mpr accepts] at checked
        cases checked
      · intro failed
        cases failed
        exact ⟨cause, fault_eq_some_iff.mp checked, rfl⟩
      · rintro ⟨other, first, rfl⟩
        rw [fault_eq_some_iff.mpr first] at checked
        cases checked
        rfl

end ScriptCore.Binding
