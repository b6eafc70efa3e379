import ScriptCore.Proofs.Signature.Grammar

/-!
# What is said of a refused parameter list

A refusal names a rule and a parameter, and its text tells something about that
parameter and the ones around it.  Six of the eight texts are true of every list
that is refused with them.  The other two are about keyword-only parameters: one
puts the name of the variadic parameter where that of a keyword-only one belongs,
the other speaks of a variadic parameter also where only keyword-only ones are.
-/

namespace ScriptCore

/-- What the text of a refusal tells of a parameter and the ones around it. -/
def SignatureFault.Tells (before : List Parameter) (p : Parameter) (after : List Parameter) :
    SignatureFault → Prop
  | duplicateParameter => ∃ q ∈ before, q.name = p.name
  | multipleVariadic => p.kind = .variadic ∧ ∃ q ∈ before, q.kind = .variadic
  | multipleKeywordCollectors =>
      p.kind = .keywordCollector ∧ ∃ q ∈ before, q.kind = .keywordCollector
  | afterKeywordCollector => ∃ q ∈ before, q.kind = .keywordCollector
  | positionalAfterVariadic => p.kind = .positional ∧ ∃ q ∈ before, q.kind = .variadic
  | keywordOnlyBeforeVariadic => p.kind = .keywordOnly ∧ ∃ q ∈ after, q.kind = .variadic
  | nonDefaultAfterDefault => p.kind = .positional ∧ p.hasDefault = false ∧
      ∃ q ∈ before, q.kind = .positional ∧ q.hasDefault = true
  | collectorWithDefault => p.isCollector = true ∧ p.hasDefault = true

/-- The text is true of some parameter that has the name in it. -/
def SignatureError.TrueOf (error : SignatureError) (parameters : List Parameter) : Prop :=
  ∃ before p after, parameters = before ++ p :: after ∧ p.name = error.parameter ∧
    error.fault.Tells before p after

namespace Signature

variable {parameters seen before after : List Parameter} {p : Parameter} {scan : Scan}
  {fault : SignatureFault} {error : SignatureError}

/-- What is the case where a pass over a parameter list stops. -/
structure Found (fault : SignatureFault) (before : List Parameter) (p : Parameter)
    (after : List Parameter) : Prop where
  tells : fault ≠ .keywordOnlyBeforeVariadic →
    (fault = .positionalAfterVariadic → ∃ q ∈ before, q.kind = .variadic) →
      fault.Tells before p after
  /-- A positional parameter comes too late after a keyword-only one, too. -/
  late : fault = .positionalAfterVariadic → p.kind = .positional ∧
    ∃ q ∈ before, q.kind = .variadic ∨ q.kind = .keywordOnly
  /-- The parameter that is named is the variadic one, with a keyword-only one before it. -/
  misnamed : fault = .keywordOnlyBeforeVariadic →
    p.kind = .variadic ∧ ∃ q ∈ before, q.kind = .keywordOnly

theorem found_of_tells (keywordOnly : fault ≠ .keywordOnlyBeforeVariadic)
    (positional : fault ≠ .positionalAfterVariadic) (tells : fault.Tells before p after) :
    Found fault before p after :=
  ⟨fun _ _ => tells, fun same => absurd same positional, fun same => absurd same keywordOnly⟩

/-- What a pass that remembers the parameters seen refuses has the fault that it reports. -/
theorem Scan.Recalls.found (recalls : scan.Recalls seen) (after : List Parameter)
    (refused : scan.step p = .error fault) : Found fault seen p after := by
  unfold Scan.step at refused
  dsimp only at refused
  by_cases known : p.name ∈ scan.names
  · rw [if_pos known] at refused
    cases refused
    exact found_of_tells nofun nofun (recalls.name p.name known)
  rw [if_neg known] at refused
  by_cases last : scan.keywordCollector = true
  · rw [if_pos last] at refused
    have earlier := recalls.keywordCollector last
    by_cases again : p.kind = .keywordCollector
    · rw [if_pos again] at refused
      cases refused
      exact found_of_tells nofun nofun ⟨again, earlier⟩
    · rw [if_neg again] at refused
      cases refused
      exact found_of_tells nofun nofun earlier
  rw [if_neg last] at refused
  by_cases given : p.isCollector ∧ p.hasDefault
  · rw [if_pos given] at refused
    cases refused
    exact found_of_tells nofun nofun given
  rw [if_neg given] at refused
  cases kind : p.kind with
  | positional =>
      rw [kind] at refused
      dsimp only at refused
      by_cases late : scan.variadic ∨ scan.keywordOnly
      · rw [if_pos late] at refused
        cases refused
        refine ⟨fun _ variadic => ⟨kind, variadic rfl⟩, fun _ => ⟨kind, ?_⟩, nofun⟩
        rcases late with variadic | keywordOnly
        · obtain ⟨q, member, same⟩ := recalls.variadic variadic
          exact ⟨q, member, .inl same⟩
        · obtain ⟨q, member, same⟩ := recalls.keywordOnly keywordOnly
          exact ⟨q, member, .inr same⟩
      rw [if_neg late] at refused
      by_cases having : p.hasDefault = true
      · rw [if_pos having] at refused
        cases refused
      rw [if_neg having] at refused
      by_cases defaulted : scan.defaulted = true
      · rw [if_pos defaulted] at refused
        cases refused
        have without := Bool.eq_false_iff.mpr having
        exact found_of_tells nofun nofun ⟨kind, without, recalls.defaulted defaulted⟩
      · rw [if_neg defaulted] at refused
        cases refused
  | variadic =>
      rw [kind] at refused
      dsimp only at refused
      by_cases second : scan.variadic = true
      · rw [if_pos second] at refused
        cases refused
        exact found_of_tells nofun nofun ⟨kind, recalls.variadic second⟩
      rw [if_neg second] at refused
      by_cases keywordOnly : scan.keywordOnly = true
      · rw [if_pos keywordOnly] at refused
        cases refused
        exact ⟨fun other => absurd rfl other, nofun,
          fun _ => ⟨kind, recalls.keywordOnly keywordOnly⟩⟩
      · rw [if_neg keywordOnly] at refused
        cases refused
  | keywordOnly =>
      rw [kind] at refused
      cases refused
  | keywordCollector =>
      rw [kind] at refused
      cases refused

/-- A pass that ends early has stopped at a parameter, with all before it accepted. -/
theorem Scan.exists_stop (recalls : scan.Recalls seen)
    (refused : scan.run parameters = .error error) :
    ∃ before p after, ∃ stopped : Scan, parameters = before ++ p :: after ∧
      p.name = error.parameter ∧ stopped.Recalls (seen ++ before) ∧
      stopped.step p = .error error.fault := by
  induction parameters generalizing scan seen with
  | nil => cases refused
  | cons p rest ih =>
      unfold Scan.run at refused
      cases step : scan.step p with
      | error fault =>
          rw [step] at refused
          cases refused
          exact ⟨[], p, rest, scan, rfl, rfl, by rwa [List.append_nil], step⟩
      | ok next =>
          rw [step] at refused
          obtain ⟨_, rfl⟩ := Scan.step_eq_ok_iff.mp step
          obtain ⟨before, q, after, stopped, rfl, named, remembers, breach⟩ :=
            ih (recalls.record p) refused
          rw [List.append_assoc, List.singleton_append] at remembers
          exact ⟨p :: before, q, after, stopped, rfl, named, remembers, breach⟩

/--
Six of the eight texts are true of every list that is refused with them.  A positional
parameter that is said to follow the variadic one may follow a keyword-only one
instead, and what is named as a keyword-only parameter before the variadic one is the
variadic one itself.
-/
theorem refusal_is_true_but_for_keywordOnly
    (refused : ofParameters parameters = .error error) :
    (error.fault ≠ .keywordOnlyBeforeVariadic → error.fault ≠ .positionalAfterVariadic →
      error.TrueOf parameters) ∧
    ∃ before p after, parameters = before ++ p :: after ∧ p.name = error.parameter ∧
      Found error.fault before p after := by
  obtain ⟨before, p, after, stopped, split, named, recalls, breach⟩ :=
    Scan.exists_stop .start (ofParameters_eq_error_iff.mp refused)
  rw [List.nil_append] at recalls
  have found := recalls.found after breach
  refine ⟨fun keywordOnly positional => ?_, before, p, after, split, named, found⟩
  have tells := found.tells keywordOnly fun same => absurd same positional
  exact ⟨before, p, after, split, named, tells⟩

theorem refusal_is_true_but_for_keywordOnly_two_lists :
    (⟨.nonDefaultAfterDefault, "b"⟩ : SignatureError).TrueOf
        [⟨"a", .positional, some (.shared .none)⟩, ⟨"b", .positional, none⟩] ∧
      ∃ before p after,
        [⟨"k", .keywordOnly, none⟩, ⟨"args", .variadic, none⟩] = before ++ p :: after ∧
          p.name = "args" ∧ Found .keywordOnlyBeforeVariadic before p after := by
  have misnamed : ofParameters [⟨"k", .keywordOnly, none⟩, ⟨"args", .variadic, none⟩] =
      .error ⟨.keywordOnlyBeforeVariadic, "args"⟩ := rfl
  exact ⟨(refusal_is_true_but_for_keywordOnly rfl).1 nofun nofun,
    (refusal_is_true_but_for_keywordOnly misnamed).2⟩

/--
Two lists that are refused with a false text: one says that `args` is keyword-only, and
it is the variadic parameter; the other says that `p` follows the variadic parameter,
and there is none.
-/
theorem keywordOnly_refusals_are_false :
    (ofParameters [⟨"k", .keywordOnly, none⟩, ⟨"args", .variadic, none⟩] =
        .error ⟨.keywordOnlyBeforeVariadic, "args"⟩ ∧
      ¬ (⟨.keywordOnlyBeforeVariadic, "args"⟩ : SignatureError).TrueOf
        [⟨"k", .keywordOnly, none⟩, ⟨"args", .variadic, none⟩]) ∧
    ofParameters [⟨"k", .keywordOnly, none⟩, ⟨"p", .positional, none⟩] =
        .error ⟨.positionalAfterVariadic, "p"⟩ ∧
      ¬ (⟨.positionalAfterVariadic, "p"⟩ : SignatureError).TrueOf
        [⟨"k", .keywordOnly, none⟩, ⟨"p", .positional, none⟩] := by
  refine ⟨⟨rfl, ?_⟩, rfl, ?_⟩
  · rintro ⟨before, p, after, split, named, kind, _⟩
    have member : p ∈ [⟨"k", .keywordOnly, none⟩, ⟨"args", .variadic, none⟩] :=
      split ▸ List.mem_append_right _ List.mem_cons_self
    rcases List.mem_cons.mp member with rfl | last
    · exact absurd named (by decide)
    · rw [List.mem_singleton.mp last] at kind
      cases kind
  · rintro ⟨before, p, after, split, _, _, q, earlier, kind⟩
    have member : q ∈ [⟨"k", .keywordOnly, none⟩, ⟨"p", .positional, none⟩] :=
      split ▸ List.mem_append_left _ earlier
    rcases List.mem_cons.mp member with rfl | last
    · cases kind
    · rw [List.mem_singleton.mp last] at kind
      cases kind

end Signature

end ScriptCore
