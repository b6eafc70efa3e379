import ScriptCore.Binding
import ScriptCore.Proofs.Signature.Layout

/-!
# Binding without a pool

The binder takes keywords out of a pool while it walks the parameters.  Because
no parameter name and no keyword occurs twice, the pool never matters: what a
parameter gets, and which rule a call breaks first, can be read off the
signature and the arguments directly.
-/

namespace ScriptCore.Binding

/-! ## Keywords and defaults -/

/-- The keywords that name none of the parameters, in call order. -/
def leftover (parameters : List Parameter) (keywords : Pool) : Pool :=
  keywords.filter fun entry => entry.1 ∉ parameters.map (·.name)

/-- Whether a parameter has neither a keyword nor a default. -/
def lacks (keywords : Pool) (p : Parameter) : Bool :=
  p.name ∉ keywords.map (·.1) && !p.hasDefault

/-- The value of a parameter that is not given by position: its keyword, else its default. -/
def supply (keywords : Pool) (p : Parameter) (heap : Heap) : Value × Heap :=
  match Table.lookup p.name keywords, p.default with
  | some value, _ => (value, heap)
  | none, some default => default.produce heap
  | none, none => (.none, heap)

/-- Parameters with the values that are supplied for them, from left to right. -/
def supplyAll (keywords : Pool) : List Parameter → Heap → List (Name × Value) × Heap
  | [], heap => ([], heap)
  | p :: rest, heap =>
      let (value, heap) := supply keywords p heap
      let (bound, heap) := supplyAll keywords rest heap
      ((p.name, value) :: bound, heap)

theorem leftover_nil (keywords : Pool) : leftover [] keywords = keywords := by
  simp [leftover]

theorem leftover_leftover (first second : List Parameter) (keywords : Pool) :
    leftover second (leftover first keywords) = leftover (first ++ second) keywords := by
  simp only [leftover, List.filter_filter]
  refine List.filter_congr fun entry _ => ?_
  by_cases inFirst : entry.1 ∈ first.map (·.name) <;> simp_all

theorem mem_names_leftover {parameters : List Parameter} {keywords : Pool} {name : Name}
    (other : name ∉ parameters.map (·.name)) :
    name ∈ (leftover parameters keywords).map (·.1) ↔ name ∈ keywords.map (·.1) := by
  simp only [leftover, List.mem_map, List.mem_filter]
  constructor
  · rintro ⟨entry, ⟨member, _⟩, rfl⟩
    exact ⟨entry, member, rfl⟩
  · rintro ⟨entry, member, rfl⟩
    exact ⟨entry, ⟨member, by simpa using other⟩, rfl⟩

theorem nodup_names_leftover {keywords : Pool} (unique : (keywords.map (·.1)).Nodup)
    (parameters : List Parameter) : ((leftover parameters keywords).map (·.1)).Nodup :=
  unique.sublist (List.filter_sublist.map _)

theorem lookup_leftover {parameters : List Parameter} {name : Name}
    (other : name ∉ parameters.map (·.name)) (keywords : Pool) :
    Table.lookup name (leftover parameters keywords) = Table.lookup name keywords := by
  induction keywords with
  | nil => rfl
  | cons entry rest ih =>
      obtain ⟨keyword, value⟩ := entry
      by_cases taken : keyword ∈ parameters.map (·.name)
      · have different : keyword ≠ name := fun same => other (same ▸ taken)
        rw [show leftover parameters ((keyword, value) :: rest) = leftover parameters rest by
          simp only [leftover, List.filter_cons, taken, not_true_eq_false, decide_false]; rfl]
        simp [Table.lookup, different, ih]
      · rw [show leftover parameters ((keyword, value) :: rest) =
            (keyword, value) :: leftover parameters rest by
          simp only [leftover, List.filter_cons, taken, not_false_eq_true, decide_true]; rfl]
        simp only [Table.lookup, ih]

/-! ## Taking keywords out of the pool -/

/-- Taking a keyword gives its value and leaves the other keywords in their order. -/
theorem take_eq_map_lookup {pool : Pool} (unique : (pool.map (·.1)).Nodup) (name : Name) :
    take name pool =
      (Table.lookup name pool).map fun value => (value, pool.filter (·.1 ≠ name)) := by
  induction pool with
  | nil => rfl
  | cons entry rest ih =>
      obtain ⟨keyword, value⟩ := entry
      rw [List.map_cons, List.nodup_cons] at unique
      by_cases same : keyword = name
      · subst same
        have untouched : rest.filter (·.1 ≠ keyword) = rest := by
          rw [List.filter_eq_self]
          intro other member
          have different : other.1 ≠ keyword := fun same =>
            unique.1 (List.mem_map.mpr ⟨other, member, same⟩)
          simpa using different
        simpa [take, Table.lookup] using untouched.symm
      · rw [take, Table.lookup, if_neg same, if_neg same, ih unique.2]
        cases Table.lookup name rest <;> simp [same]

theorem leftover_singleton (p : Parameter) (pool : Pool) :
    leftover [p] pool = pool.filter (·.1 ≠ p.name) := by
  simp [leftover]

/-- A keyword that is not in the pool is not missed there. -/
theorem leftover_singleton_of_not_mem {p : Parameter} {pool : Pool}
    (absent : p.name ∉ pool.map (·.1)) : leftover [p] pool = pool := by
  rw [leftover_singleton, List.filter_eq_self]
  intro entry member
  have different : entry.1 ≠ p.name := fun same =>
    absent (List.mem_map.mpr ⟨entry, member, same⟩)
  simpa using different

/-- A parameter without positional argument gets what is supplied for it, if anything is. -/
theorem keywordOrDefault_eq (function : Name) (p : Parameter) {pool : Pool}
    (unique : (pool.map (·.1)).Nodup) (heap : Heap) :
    keywordOrDefault function p pool heap =
      if lacks pool p then .error (.ofCause (.missingArgument function p.name))
      else .ok ((supply pool p heap).1, leftover [p] pool, (supply pool p heap).2) := by
  rw [keywordOrDefault, take_eq_map_lookup unique]
  cases found : Table.lookup p.name pool with
  | some value =>
      have present : p.name ∈ pool.map (·.1) := Decidable.of_not_not fun absent => by
        rw [Table.lookup_eq_none_iff.mpr absent] at found
        cases found
      have supplied : lacks pool p = false := by
        simpa [lacks] using fun absent => absurd present (by simpa using absent)
      simp [supply, found, supplied, leftover_singleton]
  | none =>
      have absent : p.name ∉ pool.map (·.1) := Table.lookup_eq_none_iff.mp found
      rw [leftover_singleton_of_not_mem absent]
      cases default : p.default with
      | some default =>
          simp [supply, found, lacks, default, Parameter.hasDefault]
      | none =>
          have lacking : lacks pool p = true := by
            simpa [lacks, Parameter.hasDefault, default] using absent
          simp [lacking]

/-! ## One group of parameters at a time -/

/-- Put bindings in front of what the later parameters are bound to. -/
def onto (bound : List (Name × Value)) (later : Except Error (List (Name × Value) × Heap)) :
    Except Error (List (Name × Value) × Heap) :=
  later.map fun (slots, heap) => (bound ++ slots, heap)

theorem onto_nil (later : Except Error (List (Name × Value) × Heap)) : onto [] later = later := by
  cases later <;> rfl

theorem onto_onto (first second : List (Name × Value))
    (later : Except Error (List (Name × Value) × Heap)) :
    onto first (onto second later) = onto (first ++ second) later := by
  cases later with
  | error error => rfl
  | ok result => simp [onto, Except.map]

section Equations

variable (function : Name) {p : Parameter} (rest : List Parameter) (positional : List Value)
  (pool : Pool) (heap : Heap)

theorem slots_filled_cons (kind : p.kind = .positional) (value : Value) :
    slots function (p :: rest) (value :: positional) pool heap =
      if p.name ∈ pool.map (·.1) then .error (.ofCause (.multipleValues function p.name))
      else onto [(p.name, value)] (slots function rest positional pool heap) := by
  have given : pool.any (·.1 = p.name) = true ↔ p.name ∈ pool.map (·.1) := by
    simp [List.any_eq_true]
  by_cases repeated : p.name ∈ pool.map (·.1)
  · simp [slots, kind, given.mpr repeated, repeated]
  · simp [slots, kind, mt given.mp repeated, repeated, onto]

theorem slots_requested_cons (kind : p.kind = .positional ∨ p.kind = .keywordOnly) :
    slots function (p :: rest) [] pool heap =
      match keywordOrDefault function p pool heap with
      | .ok (value, pool, heap) => onto [(p.name, value)] (slots function rest [] pool heap)
      | .error error => .error error := by
  rcases kind with kind | kind
  all_goals
    simp only [slots, kind]
    cases keywordOrDefault function p pool heap with
    | ok result => rfl
    | error error => rfl

theorem slots_variadic_cons (kind : p.kind = .variadic) :
    slots function (p :: rest) positional pool heap =
      onto [(p.name, .tuple positional)] (slots function rest [] pool heap) := by
  simp [slots, kind, onto]

theorem slots_keywordCollector_cons (kind : p.kind = .keywordCollector) :
    slots function (p :: rest) positional pool heap =
      onto [(p.name, (heap.newDict (collected pool)).1)]
        (slots function rest positional [] (heap.newDict (collected pool)).2) := by
  simp [slots, kind, onto]

end Equations

/-- Positional arguments go to positional parameters in order, unless a keyword repeats one. -/
theorem slots_filled (function : Name) {filled : List Parameter} (rest : List Parameter)
    {values : List Value} (more : List Value) (pool : Pool) (heap : Heap)
    (positional : ∀ p ∈ filled, p.kind = .positional) (matched : filled.length = values.length) :
    slots function (filled ++ rest) (values ++ more) pool heap =
      match filled.find? (·.name ∈ pool.map (·.1)) with
      | some p => .error (.ofCause (.multipleValues function p.name))
      | none => onto ((filled.map (·.name)).zip values) (slots function rest more pool heap) := by
  induction filled generalizing values with
  | nil =>
      cases values with
      | nil => simp [onto_nil]
      | cons value values => cases matched
  | cons p filled ih =>
      cases values with
      | nil => cases matched
      | cons value values =>
          have inner := ih (fun q member => positional q (List.mem_cons_of_mem _ member))
            (Nat.succ.inj matched)
          rw [List.cons_append, List.cons_append,
            slots_filled_cons _ _ _ _ _ (positional p List.mem_cons_self), inner]
          by_cases repeated : p.name ∈ pool.map (·.1)
          · simp [repeated]
          · rw [if_neg repeated, List.find?_cons_of_neg (by simpa using repeated)]
            cases filled.find? (·.name ∈ pool.map (·.1)) with
            | some q => rfl
            | none => simp only [onto_onto]; rfl

theorem lacks_leftover {parameters : List Parameter} {p : Parameter}
    (other : p.name ∉ parameters.map (·.name)) (pool : Pool) :
    lacks (leftover parameters pool) p = lacks pool p := by
  rw [lacks, lacks, decide_eq_decide.mpr (not_congr (mem_names_leftover other))]

theorem find?_lacks_leftover {parameters requested : List Parameter}
    (disjoint : ∀ p ∈ requested, p.name ∉ parameters.map (·.name)) (pool : Pool) :
    requested.find? (lacks (leftover parameters pool)) = requested.find? (lacks pool) := by
  induction requested with
  | nil => rfl
  | cons p rest ih =>
      rw [List.find?_cons, List.find?_cons, lacks_leftover (disjoint p List.mem_cons_self),
        ih fun q member => disjoint q (List.mem_cons_of_mem _ member)]

/-- Only the keywords of the parameters themselves matter. -/
theorem supplyAll_congr {keywords other : Pool} {parameters : List Parameter}
    (same : ∀ p ∈ parameters, Table.lookup p.name keywords = Table.lookup p.name other) :
    supplyAll keywords parameters = supplyAll other parameters := by
  induction parameters with
  | nil => rfl
  | cons p rest ih =>
      have here : supply keywords p = supply other p := by
        funext heap
        rw [supply, supply, same p List.mem_cons_self]
      funext heap
      rw [supplyAll, supplyAll, here, ih fun q member => same q (List.mem_cons_of_mem _ member)]

theorem supplyAll_leftover {parameters requested : List Parameter}
    (disjoint : ∀ p ∈ requested, p.name ∉ parameters.map (·.name)) (pool : Pool) :
    supplyAll (leftover parameters pool) requested = supplyAll pool requested :=
  supplyAll_congr fun p member => lookup_leftover (disjoint p member) pool

/-- Parameters without positional argument take their keywords and defaults, unless one
lacks both. -/
theorem slots_requested (function : Name) {requested : List Parameter} (rest : List Parameter)
    {pool : Pool} (heap : Heap)
    (kinds : ∀ p ∈ requested, p.kind = .positional ∨ p.kind = .keywordOnly)
    (distinct : (requested.map (·.name)).Nodup) (unique : (pool.map (·.1)).Nodup) :
    slots function (requested ++ rest) [] pool heap =
      match requested.find? (lacks pool) with
      | some p => .error (.ofCause (.missingArgument function p.name))
      | none =>
          onto (supplyAll pool requested heap).1
            (slots function rest [] (leftover requested pool) (supplyAll pool requested heap).2) := by
  induction requested generalizing pool heap with
  | nil => simp [supplyAll, onto_nil, leftover_nil]
  | cons p requested ih =>
      rw [List.map_cons, List.nodup_cons] at distinct
      -- The later parameters have other names, so they do not see that `p` took its keyword.
      have disjoint : ∀ q ∈ requested, q.name ∉ [p].map (·.name) := fun q member same =>
        distinct.1 (List.mem_map.mpr ⟨q, member, by simpa using same⟩)
      rw [List.cons_append, slots_requested_cons _ _ _ _ (kinds p List.mem_cons_self),
        keywordOrDefault_eq function p unique]
      by_cases lacking : lacks pool p
      · simp [lacking]
      · simp only [lacking, Bool.false_eq_true, if_false]
        rw [ih _ (fun q member => kinds q (List.mem_cons_of_mem _ member)) distinct.2
          (nodup_names_leftover unique [p]), find?_lacks_leftover disjoint,
          supplyAll_leftover disjoint, leftover_leftover,
          List.find?_cons_of_neg (by simpa using lacking)]
        cases requested.find? (lacks pool) with
        | some q => rfl
        | none => simp only [onto_onto]; rfl

/-- What the collectors of a signature are bound to, if it has them. -/
def collectValues (collector : Option Parameter) (values : List Value) : List (Name × Value) :=
  collector.toList.map fun p => (p.name, .tuple values)

def collectKeywords (collector : Option Parameter) (pool : Pool) (heap : Heap) :
    List (Name × Value) × Heap :=
  match collector with
  | some p => ([(p.name, (heap.newDict (collected pool)).1)], (heap.newDict (collected pool)).2)
  | none => ([], heap)

/-- The keyword that nothing takes, if there is one. -/
def unexpected (function : Name) (collector : Option Parameter) (pool : Pool) : Option Cause :=
  match collector, pool with
  | none, (keyword, _) :: _ => some (.unexpectedKeyword function keyword)
  | _, _ => none

theorem slots_variadic (function : Name) {collector : Option Parameter} (rest : List Parameter)
    {values : List Value} (pool : Pool) (heap : Heap)
    (kind : ∀ p ∈ collector, p.kind = .variadic) (taken : collector = none → values = []) :
    slots function (collector.toList ++ rest) values pool heap =
      onto (collectValues collector values) (slots function rest [] pool heap) := by
  cases collector with
  | none =>
      rw [taken rfl]
      exact (onto_nil _).symm
  | some p => exact slots_variadic_cons _ _ _ _ _ (kind p rfl)

theorem slots_keywordCollector (function : Name) {collector : Option Parameter} (pool : Pool)
    (heap : Heap) (kind : ∀ p ∈ collector, p.kind = .keywordCollector) :
    slots function collector.toList [] pool heap =
      match unexpected function collector pool with
      | some cause => .error (.ofCause cause)
      | none => .ok (collectKeywords collector pool heap) := by
  cases collector with
  | none => cases pool <;> simp [slots, unexpected, collectKeywords]
  | some p =>
      rw [Option.toList_some, slots_keywordCollector_cons _ _ _ _ _ (kind p rfl)]
      simp [slots, onto, Except.map, unexpected, collectKeywords]

/-! ## The whole call -/

section ClosedForm

variable (function : Name) (s : Signature) (a : Arguments)

/-- The parameters that get a positional argument. -/
def filled : List Parameter := s.positional.take a.positional.length

/-- The positional parameters that get none. -/
def unfilled : List Parameter := s.positional.drop a.positional.length

/-- The parameters that get a value by keyword or by default. -/
def requested : List Parameter := unfilled s a ++ s.keywordOnly

/-- The first rule that a call breaks, if it breaks one. -/
def fault : Option Cause :=
  let given := a.keywords.map (·.1)
  match firstRepeated [] given with
  | some keyword => some (.repeatedKeyword function keyword)
  | none =>
      if s.variadic?.isNone ∧ s.positional.length < a.positional.length then
        some (.tooManyPositional function s.positional.length a.positional.length)
      else match (filled s a).find? (·.name ∈ given) with
        | some p => some (.multipleValues function p.name)
        | none => match (requested s a).find? (lacks a.keywords) with
            | some p => some (.missingArgument function p.name)
            | none => unexpected function s.keywordCollector? (leftover (requested s a) a.keywords)

/-- What the parameters are bound to in a call that breaks no rule. -/
def bound (heap : Heap) : List (Name × Value) × Heap :=
  let (late, heap) := supplyAll a.keywords (unfilled s a) heap
  let (only, heap) := supplyAll a.keywords s.keywordOnly heap
  let (rest, heap) := collectKeywords s.keywordCollector?
    (leftover (requested s a) a.keywords) heap
  (((filled s a).map (·.name)).zip (a.positional.take s.positional.length) ++ late ++
    collectValues s.variadic? (a.positional.drop s.positional.length) ++ only ++ rest, heap)

theorem firstRepeated_eq_none_iff {seen names : List Name} :
    firstRepeated seen names = none ↔ names.Nodup ∧ ∀ name ∈ names, name ∉ seen := by
  induction names generalizing seen with
  | nil => simp [firstRepeated]
  | cons name rest ih =>
      by_cases known : name ∈ seen
      · simp [firstRepeated, known]
      · rw [firstRepeated, if_neg known, ih, List.nodup_cons]
        constructor
        · rintro ⟨distinct, fresh⟩
          refine ⟨⟨fun again => fresh name again List.mem_cons_self, distinct⟩, ?_⟩
          intro other member
          rcases List.mem_cons.mp member with rfl | later
          · exact known
          · exact fun earlier => fresh other later (List.mem_cons_of_mem _ earlier)
        · rintro ⟨⟨once, distinct⟩, fresh⟩
          refine ⟨distinct, fun other member => ?_⟩
          rw [List.mem_cons, not_or]
          exact ⟨fun same => once (same ▸ member), fresh other (List.mem_cons_of_mem _ member)⟩

variable {s a}

theorem parameters_eq_filled_append :
    s.parameters = filled s a ++ (unfilled s a ++
      (s.variadic?.toList ++ (s.keywordOnly ++ s.keywordCollector?.toList))) := by
  rw [s.parameters_eq_append, filled, unfilled, ← List.append_assoc (s.positional.take _),
    List.take_append_drop]
  simp only [List.append_assoc]

theorem requested_sublist : (requested s a).Sublist s.parameters := by
  rw [parameters_eq_filled_append (a := a), requested]
  refine List.sublist_append_of_sublist_right ?_
  refine List.Sublist.append_left ?_ _
  refine List.sublist_append_of_sublist_right ?_
  exact List.sublist_append_left _ _

theorem nodup_names_requested : ((requested s a).map (·.name)).Nodup :=
  s.names_nodup.sublist (requested_sublist.map _)

theorem disjoint_unfilled_keywordOnly :
    ∀ p ∈ s.keywordOnly, p.name ∉ (unfilled s a).map (·.name) := by
  have distinct := nodup_names_requested (s := s) (a := a)
  rw [requested, List.map_append, List.nodup_append] at distinct
  intro p member same
  exact distinct.2.2 p.name same p.name (List.mem_map.mpr ⟨p, member, rfl⟩) rfl

/-- If any positional parameter is left, no positional argument is. -/
theorem slots_unfilled (rest : List Parameter) (unique : (a.keywords.map (·.1)).Nodup)
    (heap : Heap) :
    slots function (unfilled s a ++ rest) (a.positional.drop s.positional.length) a.keywords heap =
      match (unfilled s a).find? (lacks a.keywords) with
      | some p => .error (.ofCause (.missingArgument function p.name))
      | none =>
          onto (supplyAll a.keywords (unfilled s a) heap).1
            (slots function rest (a.positional.drop s.positional.length)
              (leftover (unfilled s a) a.keywords)
              (supplyAll a.keywords (unfilled s a) heap).2) := by
  rcases Nat.le_total s.positional.length a.positional.length with more | fewer
  · have none : unfilled s a = [] := List.drop_eq_nil_of_le more
    simp [none, supplyAll, onto_nil, leftover_nil]
  · rw [List.drop_eq_nil_of_le fewer]
    refine slots_requested function rest heap (fun p member => ?_) ?_ unique
    · exact .inl (Signature.kind_of_mem_positional (List.mem_of_mem_drop member))
    · exact nodup_names_requested.sublist
        ((List.sublist_append_left (unfilled s a) s.keywordOnly).map _)

/-- What the parameters are bound to once keywords are distinct and positional arguments fit. -/
theorem slots_parameters (unique : (a.keywords.map (·.1)).Nodup)
    (fits : s.variadic? = none → a.positional.length ≤ s.positional.length) (heap : Heap) :
    slots function s.parameters a.positional a.keywords heap =
      match (filled s a).find? (·.name ∈ a.keywords.map (·.1)) with
      | some p => .error (.ofCause (.multipleValues function p.name))
      | none => match (requested s a).find? (lacks a.keywords) with
          | some p => .error (.ofCause (.missingArgument function p.name))
          | none =>
              match unexpected function s.keywordCollector? (leftover (requested s a) a.keywords) with
              | some cause => .error (.ofCause cause)
              | none => .ok (bound s a heap) := by
  have matched : (filled s a).length = (a.positional.take s.positional.length).length := by
    simp [filled, Nat.min_comm]
  have positional : ∀ p ∈ filled s a, p.kind = .positional := fun p member =>
    Signature.kind_of_mem_positional (List.mem_of_mem_take member)
  have first := slots_filled function
    (unfilled s a ++ (s.variadic?.toList ++ (s.keywordOnly ++ s.keywordCollector?.toList)))
    (a.positional.drop s.positional.length) a.keywords heap positional matched
  rw [List.take_append_drop, ← parameters_eq_filled_append] at first
  rw [first]
  cases (filled s a).find? (·.name ∈ a.keywords.map (·.1)) with
  | some p => rfl
  | none =>
      simp only [requested, List.find?_append]
      rw [slots_unfilled function _ unique heap]
      cases (unfilled s a).find? (lacks a.keywords) with
      | some p => rfl
      | none =>
          simp only [Option.none_or]
          rw [slots_variadic function _ _ _ (fun p found => Signature.kind_of_variadic? found)
              (fun missing => List.drop_eq_nil_of_le (fits missing)),
            slots_requested function _ _
              (fun p member => .inr (Signature.kind_of_mem_keywordOnly member))
              (s.names_nodup.sublist (List.filter_sublist.map _))
              (nodup_names_leftover unique _),
            find?_lacks_leftover disjoint_unfilled_keywordOnly,
            supplyAll_leftover disjoint_unfilled_keywordOnly, leftover_leftover]
          cases s.keywordOnly.find? (lacks a.keywords) with
          | some p => rfl
          | none =>
              simp only
              rw [slots_keywordCollector function _ _
                fun p found => Signature.kind_of_keywordCollector? found]
              cases unexpected function s.keywordCollector?
                (leftover (unfilled s a ++ s.keywordOnly) a.keywords) with
              | some cause => rfl
              | none => simp [onto, Except.map, bound, requested]

/-- The binder computes the closed form. -/
theorem bind_eq (heap : Heap) :
    bind function s a heap =
      match fault function s a with
      | some cause => .error (.ofCause cause)
      | none => .ok (⟨(bound s a heap).1⟩, (bound s a heap).2) := by
  unfold bind fault
  dsimp only
  cases repeated : firstRepeated [] (a.keywords.map (·.1)) with
  | some keyword => rfl
  | none =>
      have unique := (firstRepeated_eq_none_iff.mp repeated).1
      by_cases overflow : s.variadic?.isNone ∧ s.positional.length < a.positional.length
      · rw [if_pos overflow, if_pos overflow]
      · rw [if_neg overflow, if_neg overflow, slots_parameters function unique (fun missing => by
          have few := mt (And.intro (Option.isNone_iff_eq_none.mpr missing)) overflow
          exact Nat.le_of_not_lt few)]
        cases (filled s a).find? (·.name ∈ a.keywords.map (·.1)) with
        | some p => rfl
        | none =>
            cases (requested s a).find? (lacks a.keywords) with
            | some p => rfl
            | none =>
                cases unexpected function s.keywordCollector?
                  (leftover (requested s a) a.keywords) <;> rfl

end ClosedForm

end ScriptCore.Binding
