import ScriptCore.Proofs.Heap.Growth

/-!
# Values of two runs that differ in new identities

Two runs that make the same objects in the same order, each in a heap of its
own, hand out different identities for them.  Counterparts are values that
differ in nothing else: the object that one run made as its `n`-th stands for
the object that the other run made as its `n`-th.
-/

namespace ScriptCore.Heap

/-- Two runs that have handed out equally many identities. -/
structure Parallel (left leftAfter right rightAfter : Heap) : Prop where
  leftGrown : left.Extends leftAfter
  rightGrown : right.Extends rightAfter
  count : ∃ n, leftAfter.next = left.next + n ∧ rightAfter.next = right.next + n

/-- Objects that both runs made at the same point, with their contents at the end. -/
def MadeTogether (left leftAfter right rightAfter : Heap) (type : TypeId) (first : Value)
    (firstContents : Payload) (second : Value) (secondContents : Payload) : Prop :=
  ∃ n, first = .object ⟨left.next + n⟩ type ∧ second = .object ⟨right.next + n⟩ type ∧
    IsNew left leftAfter ⟨left.next + n⟩ ∧ IsNew right rightAfter ⟨right.next + n⟩ ∧
    leftAfter.payload ⟨left.next + n⟩ = firstContents ∧
    rightAfter.payload ⟨right.next + n⟩ = secondContents

/--
What two runs have in the same place, up to the identities of new objects, at whatever
depth these are found.
-/
inductive Counterparts (left leftAfter right rightAfter : Heap) : Value → Value → Prop where
  | same (value : Value) : Counterparts left leftAfter right rightAfter value value
  /-- New objects with the same contents. -/
  | made {type : TypeId} {contents : Payload} {first second : Value}
      (together : MadeTogether left leftAfter right rightAfter type first contents second
        contents) :
      Counterparts left leftAfter right rightAfter first second
  | tuple {items others : List Value} (length : items.length = others.length)
      (inside : ∀ {item other}, (item, other) ∈ items.zip others →
        Counterparts left leftAfter right rightAfter item other) :
      Counterparts left leftAfter right rightAfter (.tuple items) (.tuple others)
  | list {items others : List Value} {first second : Value}
      (together : MadeTogether left leftAfter right rightAfter .list first (.list items) second
        (.list others))
      (length : items.length = others.length)
      (inside : ∀ {item other}, (item, other) ∈ items.zip others →
        Counterparts left leftAfter right rightAfter item other) :
      Counterparts left leftAfter right rightAfter first second
  /-- New mappings of the same keys. -/
  | dict {mapping other : Mapping} {first second : Value}
      (together : MadeTogether left leftAfter right rightAfter .dict first (.mapping mapping)
        second (.mapping other))
      (keys : mapping.entries.map Prod.fst = other.entries.map Prod.fst)
      (inside : ∀ {entry partner}, (entry, partner) ∈ mapping.entries.zip other.entries →
        Counterparts left leftAfter right rightAfter entry.2 partner.2) :
      Counterparts left leftAfter right rightAfter first second

variable {left leftAfter leftLast right rightAfter rightLast : Heap} {type : TypeId}
  {first second : Value}

theorem Parallel.start (left right : Heap) : Parallel left left right right :=
  ⟨.refl left, .refl right, 0, rfl, rfl⟩

theorem MadeTogether.mono {firstContents secondContents : Payload}
    (together : MadeTogether left leftAfter right rightAfter type first firstContents second
      secondContents)
    (leftGrows : leftAfter.Extends leftLast) (rightGrows : rightAfter.Extends rightLast) :
    MadeTogether left leftLast right rightLast type first firstContents second secondContents := by
  obtain ⟨n, firstMade, secondMade, leftNew, rightNew, firstHeld, secondHeld⟩ := together
  refine ⟨n, firstMade, secondMade, ?_, ?_, ?_, ?_⟩
  · exact leftNew.mono (.refl left) leftGrows
  · exact rightNew.mono (.refl right) rightGrows
  · exact (leftGrows.payload _ leftNew.2).trans firstHeld
  · exact (rightGrows.payload _ rightNew.2).trans secondHeld

/-- Counterparts stay what they are while both runs go on. -/
theorem Counterparts.mono (counterparts : Counterparts left leftAfter right rightAfter first second)
    (leftGrows : leftAfter.Extends leftLast) (rightGrows : rightAfter.Extends rightLast) :
    Counterparts left leftLast right rightLast first second := by
  induction counterparts with
  | same => exact .same _
  | made together => exact .made (together.mono leftGrows rightGrows)
  | tuple length _ ih => exact .tuple length ih
  | list together length _ ih => exact .list (together.mono leftGrows rightGrows) length ih
  | dict together keys _ ih => exact .dict (together.mono leftGrows rightGrows) keys ih

namespace Parallel

variable (parallel : Parallel left leftAfter right rightAfter)

include parallel

theorem newObject (type : TypeId) (firstContents secondContents : Payload) :
    Parallel left (leftAfter.newObject type firstContents).2 right
      (rightAfter.newObject type secondContents).2 where
  leftGrown := parallel.leftGrown.trans (leftAfter.newObject_extends type firstContents)
  rightGrown := parallel.rightGrown.trans (rightAfter.newObject_extends type secondContents)
  count := by
    obtain ⟨n, leftCount, rightCount⟩ := parallel.count
    exact ⟨n + 1, congrArg Nat.succ leftCount, congrArg Nat.succ rightCount⟩

theorem madeTogether_newObject (type : TypeId) (firstContents secondContents : Payload) :
    MadeTogether left (leftAfter.newObject type firstContents).2 right
      (rightAfter.newObject type secondContents).2 type
      (leftAfter.newObject type firstContents).1 firstContents
      (rightAfter.newObject type secondContents).1 secondContents := by
  obtain ⟨n, leftCount, rightCount⟩ := parallel.count
  obtain ⟨leftId, firstMade, leftNew, firstHeld⟩ :=
    leftAfter.newObject_spec type firstContents
  obtain ⟨rightId, secondMade, rightNew, secondHeld⟩ :=
    rightAfter.newObject_spec type secondContents
  have leftPlace : leftId = ⟨left.next + n⟩ := by
    cases firstMade
    exact congrArg Identity.mk leftCount
  have rightPlace : rightId = ⟨right.next + n⟩ := by
    cases secondMade
    exact congrArg Identity.mk rightCount
  subst leftPlace rightPlace
  refine ⟨n, firstMade, secondMade, ?_, ?_, firstHeld, secondHeld⟩
  · exact leftNew.mono parallel.leftGrown (.refl _)
  · exact rightNew.mono parallel.rightGrown (.refl _)

end Parallel

end ScriptCore.Heap
