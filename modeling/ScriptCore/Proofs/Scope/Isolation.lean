import ScriptCore.Scope.Board

/-!
# Frames on one scope

Frames on one scope share it and nothing else.  What a name means is read off
the history: a global has the value last given to it by a handle or by a frame
that had declared it before, and a local the value its own frame gave it last.
-/

namespace ScriptCore

namespace Frame

variable {frame : Frame} {scope : GlobalScope} {name other : Name} {value : Value}

theorem isGlobal_declareGlobal :
    (frame.declareGlobal name).isGlobal other =
      (decide (name = other) || frame.isGlobal other) := by
  rw [isGlobal, isGlobal, declareGlobal, List.contains_cons]
  congr 1
  exact Bool.eq_iff_iff.mpr (by rw [beq_iff_eq, decide_eq_true_iff, eq_comm])

theorem load_eq :
    frame.load scope name =
      if frame.isGlobal name then scope.get? name
      else (frame.local? name).or (scope.get? name) := by
  rw [load, local?]
  cases frame.locals.get? name <;> rfl

/-- A name is given a value, or nothing, in the frame or, if declared so, in the scope. -/
structure Puts (frame : Frame) (scope : GlobalScope) (name : Name) (given : Option Value)
    (after : Frame × GlobalScope) : Prop where
  declared : after.1.declared = frame.declared
  own : ∀ other, after.1.local? other =
    if frame.isGlobal name = false ∧ name = other then given else frame.local? other
  global : ∀ other, after.2.get? other =
    if frame.isGlobal name = true ∧ name = other then given else scope.get? other

theorem puts_store (frame : Frame) (scope : GlobalScope) (name : Name) (value : Value) :
    frame.Puts scope name (some value) (frame.store scope name value) := by
  cases declared : frame.isGlobal name with
  | true =>
      rw [store, if_pos declared]
      exact ⟨rfl, by simp [declared], by simp [declared, Table.get?_set]⟩
  | false =>
      rw [store, if_neg (Bool.eq_false_iff.mp declared)]
      exact ⟨rfl, by simp [declared, local?, Table.get?_set], by simp [declared]⟩

theorem puts_delete (frame : Frame) (scope : GlobalScope) (name : Name) :
    frame.Puts scope name none (frame.delete scope name).2 := by
  cases declared : frame.isGlobal name with
  | true =>
      rw [delete, if_pos declared]
      exact ⟨rfl, by simp [declared], by simp [declared, Table.get?_erase]⟩
  | false =>
      rw [delete, if_neg (Bool.eq_false_iff.mp declared)]
      exact ⟨rfl, by simp [declared, local?, Table.get?_erase], by simp [declared]⟩

end Frame

namespace Board

/-! ## Histories -/

namespace Action

/-- The frame an action works on. -/
def frame? : Action → Option Nat
  | .declareGlobal frame _ | .isGlobal frame _ | .store frame _ _ | .load frame _
  | .localOnly frame _ | .delete frame _ | .functionName frame => some frame
  | _ => none

/-- The name that is stored or deleted through a frame, and the value it is to have. -/
def write? : Action → Option (Nat × Name × Option Value)
  | .store frame name value => some (frame, name, some value)
  | .delete frame name => some (frame, name, none)
  | _ => none

/-- The name that is set or erased through a handle, and the value it is to have. -/
def globalWrite? : Action → Option (Name × Option Value)
  | .globalSet _ name value => some (name, some value)
  | .globalErase _ name => some (name, none)
  | _ => none

def declares (number : Nat) (name : Name) : Action → Bool
  | .declareGlobal frame other => frame = number ∧ other = name
  | _ => false

end Action

variable {board start : Board} {number other : Nat} {name : Name} {value : Value}
  {frame : Frame} {scope : GlobalScope} {past : List Action} {action : Action}

/-- Whether a frame has declared a name global. -/
def declaredIn (past : List Action) (number : Nat) (name : Name) : Bool :=
  past.any (·.declares number name)

/--
The local that a frame has of a name it has not declared global.  Here and below the
past has the latest action first.
-/
def ownValue (start : Board) (number : Nat) (name : Name) : List Action → Option Value
  | [] => (start.frame number).1.local? name
  | action :: past =>
      match action.write? with
      | some (frame, other, given) =>
          if frame = number ∧ other = name then given else ownValue start number name past
      | none => ownValue start number name past

/-- The value that a name has in the scope. -/
def globalValue (start : Board) (name : Name) : List Action → Option Value
  | [] => (start.scope 0).get? name
  | action :: past =>
      match action.write?, action.globalWrite? with
      | some (frame, other, given), _ =>
          if declaredIn past frame other = true ∧ other = name then given
          else globalValue start name past
      | none, some (other, given) => if other = name then given else globalValue start name past
      | none, none => globalValue start name past

/-- What a frame loads: the global if it has declared the name, else its local or the global. -/
def visible (start : Board) (past : List Action) (number : Nat) (name : Name) : Option Value :=
  if declaredIn past number name then globalValue start name past
  else (ownValue start number name past).or (globalValue start name past)

/-- An action makes no second scope and works on a frame that exists. -/
def Fits (board : Board) (action : Action) : Prop :=
  action ≠ .newScope ∧ ∀ number, action.frame? = some number → number < board.frames.length

/-- A past of actions each of which fits where it stands. -/
inductive History (start : Board) : List Action → Prop where
  | start : History start []
  | next {past : List Action} {action : Action} (before : History start past)
      (fits : (start.run past.reverse).Fits action) : History start (action :: past)

/--
One scope with a frame for each call that has been given its arguments.  A call that comes
later has its frame from the start, and nothing is done with it before.
-/
def single (scope : GlobalScope) (calls : List (Name × Bindings)) : Board where
  scopes := [scope]
  frames := calls.map fun (function, bound) => (Frame.ofArguments function bound, 0)

/-! ## Parts after a change -/

@[simp] theorem frame_setScope : (board.setScope number scope).frame other = board.frame other :=
  rfl

theorem frame_setFrame_self (frame : Frame) (inside : number < board.frames.length) :
    (board.setFrame number frame).frame number = (frame, (board.frame number).2) := by
  simp [setFrame, Board.frame, List.getD_eq_getElem?_getD, List.getElem?_eq_getElem inside]

theorem frame_setFrame_of_ne (different : other ≠ number) :
    (board.setFrame number frame).frame other = board.frame other := by
  simp [setFrame, Board.frame, List.getD_eq_getElem?_getD, different.symm]

theorem scope_setScope_self (inside : number < board.scopes.length) :
    (board.setScope number scope).scope number = scope := by
  simp [setScope, Board.scope, List.getD_eq_getElem?_getD, inside]

theorem run_append (board : Board) (first second : List Action) :
    board.run (first ++ second) = (board.run first).run second := by
  induction first generalizing board with
  | nil => rfl
  | cons action rest ih => exact ih _

theorem run_reverse_cons (start : Board) (action : Action) (past : List Action) :
    start.run (action :: past).reverse = ((start.run past.reverse).step action).2 := by
  rw [List.reverse_cons, run_append]
  rfl

theorem declaredIn_cons (action : Action) (past : List Action) (number : Nat) (name : Name) :
    declaredIn (action :: past) number name =
      (action.declares number name || declaredIn past number name) := rfl

theorem declares_of_write {write : Nat × Name × Option Value}
    (written : action.write? = some write) (number : Nat) (name : Name) :
    action.declares number name = false := by
  cases action with
  | declareGlobal => exact nomatch written
  | _ => rfl

/-- A frame that is made has no more names than one that does not exist. -/
theorem names_newFrame (handle : Nat) (function : Name) (number : Nat) :
    ((board.step (.newFrame handle function)).2.frame number).1.locals =
        (board.frame number).1.locals ∧
      ((board.step (.newFrame handle function)).2.frame number).1.declared =
        (board.frame number).1.declared := by
  simp only [step, Board.frame, List.getD_eq_getElem?_getD, List.getElem?_append]
  split
  · exact ⟨rfl, rfl⟩
  · next outside =>
      rw [List.getElem?_eq_none (Nat.le_of_not_lt outside)]
      cases number - board.frames.length <;> exact ⟨rfl, rfl⟩

/-- A store or a delete changes its frame or, where the name is declared, the scope. -/
theorem step_of_write (board : Board) {given : Option Value}
    (written : action.write? = some (number, name, given)) :
    ∃ after, (board.frame number).1.Puts (board.scope (board.frame number).2) name given after ∧
      (board.step action).2 =
        (board.setFrame number after.1).setScope (board.frame number).2 after.2 := by
  cases action with
  | store => cases written; exact ⟨_, Frame.puts_store .., rfl⟩
  | delete => cases written; exact ⟨_, Frame.puts_delete .., rfl⟩
  | _ => exact nomatch written

/-! ## What holds along a history -/

/-- There is one scope, and all handles and frames are on it. -/
structure OneScope (board : Board) : Prop where
  scopes : board.scopes.length = 1
  handles : ∀ handle, board.scopeOf handle = 0
  frames : ∀ number, (board.frame number).2 = 0

theorem oneScope_single (scope : GlobalScope) (calls : List (Name × Bindings)) :
    (single scope calls).OneScope where
  scopes := rfl
  handles handle := by cases handle <;> rfl
  frames number := by
    rw [Board.frame, single, List.getD_eq_getElem?_getD, List.getElem?_map]
    cases calls[number]? <;> rfl

theorem OneScope.newFrame (one : board.OneScope) (handle : Nat) (function : Name) :
    (board.step (.newFrame handle function)).2.OneScope := by
  refine ⟨one.scopes, one.handles, fun number => ?_⟩
  have before := one.frames number
  simp only [Board.frame, List.getD_eq_getElem?_getD] at before
  simp only [step, Board.frame, List.getD_eq_getElem?_getD, List.getElem?_append]
  split
  · exact before
  · cases number - board.frames.length
    · exact one.handles handle
    · rfl

theorem OneScope.shareScope (one : board.OneScope) (handle : Nat) :
    (board.step (.shareScope handle)).2.OneScope := by
  refine ⟨one.scopes, fun other => ?_, one.frames⟩
  have before := one.handles other
  simp only [scopeOf, List.getD_eq_getElem?_getD] at before
  simp only [step, scopeOf, List.getD_eq_getElem?_getD, List.getElem?_append]
  split
  · exact before
  · cases other - board.handles.length
    · have shared := one.handles handle
      rwa [scopeOf, List.getD_eq_getElem?_getD] at shared
    · rfl

/-- What a frame writes is seen in this frame and in the scope only. -/
structure Written (board : Board) (number : Nat) (name : Name) (given : Option Value)
    (after : Board) : Prop where
  oneScope : after.OneScope
  puts : (board.frame number).1.Puts (board.scope 0) name given
    ((after.frame number).1, after.scope 0)
  others : ∀ other, other ≠ number → after.frame other = board.frame other

theorem OneScope.written {given : Option Value} (one : board.OneScope)
    (inside : number < board.frames.length)
    (written : action.write? = some (number, name, given)) :
    board.Written number name given (board.step action).2 := by
  obtain ⟨after, puts, stepped⟩ := step_of_write board written
  have place : 0 < (board.setFrame number after.1).scopes.length := by
    rw [setFrame, one.scopes]
    exact Nat.zero_lt_one
  rw [one.frames] at puts stepped
  rw [stepped]
  have self := frame_setFrame_self after.1 inside
  refine ⟨⟨?_, one.handles, fun other => ?_⟩, ?_, fun other => frame_setFrame_of_ne⟩
  · rw [setScope, List.length_set]
    exact one.scopes
  · by_cases same : other = number
    · rw [frame_setScope, same, self, one.frames]
    · rw [frame_setScope, frame_setFrame_of_ne same, one.frames]
  · rw [frame_setScope, self, scope_setScope_self place]
    exact puts

/-- The history tells all that can be read off the board. -/
structure Told (start : Board) (past : List Action) (board : Board) : Prop where
  oneScope : board.OneScope
  declared : ∀ number name, (board.frame number).1.isGlobal name = declaredIn past number name
  own : ∀ number name, declaredIn past number name = false →
    (board.frame number).1.local? name = ownValue start number name past
  global : ∀ name, (board.scope 0).get? name = globalValue start name past

namespace Told

theorem begin (scope : GlobalScope) (calls : List (Name × Bindings)) :
    Told (single scope calls) [] (single scope calls) where
  oneScope := oneScope_single scope calls
  declared number name := by
    rw [Board.frame, single, List.getD_eq_getElem?_getD, List.getElem?_map]
    cases calls[number]? <;> rfl
  own _ _ _ := rfl
  global _ := rfl

theorem write {given : Option Value} (told : Told start past board)
    (inside : number < board.frames.length)
    (written : action.write? = some (number, name, given)) :
    Told start (action :: past) (board.step action).2 := by
  obtain ⟨oneScope, puts, others⟩ := told.oneScope.written inside written
  have same (other : Nat) (asked : Name) :
      declaredIn (action :: past) other asked = declaredIn past other asked := by
    rw [declaredIn_cons, declares_of_write written, Bool.false_or]
  refine ⟨oneScope, fun other asked => ?_, fun other asked undeclared => ?_, fun asked => ?_⟩
  · rw [same, ← told.declared]
    by_cases own : other = number
    · subst own
      exact congrArg (·.contains asked) puts.declared
    · rw [others other own]
  · rw [same] at undeclared
    rw [ownValue, written]
    by_cases own : other = number
    · subst own
      rw [puts.own]
      by_cases asks : name = asked
      · subst asks
        rw [told.declared, undeclared]
        simp
      · simp [asks, told.own other asked undeclared]
    · rw [others other own, told.own other asked undeclared]
      simp [Ne.symm own]
  · rw [puts.global, globalValue, written, told.declared, told.global]

/-- An action that is no write changes no value. -/
theorem quiet (told : Told start past board) (after : Board) (unwritten : action.write? = none)
    (unset : action.globalWrite? = none) (oneScope : after.OneScope)
    (declares : ∀ number name, (after.frame number).1.isGlobal name =
      (action.declares number name || (board.frame number).1.isGlobal name))
    (locals : ∀ number, (after.frame number).1.locals = (board.frame number).1.locals)
    (scopes : after.scopes = board.scopes) : Told start (action :: past) after := by
  refine ⟨oneScope, fun number name => ?_, fun number name undeclared => ?_, fun name => ?_⟩
  · rw [declares, declaredIn_cons, told.declared]
  · rw [declaredIn_cons, Bool.or_eq_false_iff] at undeclared
    rw [ownValue, unwritten, Frame.local?, locals]
    exact told.own number name undeclared.2
  · rw [globalValue, unwritten, unset, Board.scope, scopes]
    exact told.global name

theorem globalWrite {given : Option Value} (told : Told start past board) (scope : GlobalScope)
    (unwritten : action.write? = none) (written : action.globalWrite? = some (name, given))
    (values : ∀ other, scope.get? other =
      if name = other then given else (board.scope 0).get? other) :
    Told start (action :: past) (board.setScope 0 scope) := by
  have place : 0 < board.scopes.length := by
    rw [told.oneScope.scopes]
    exact Nat.zero_lt_one
  have same (number : Nat) (name : Name) : action.declares number name = false := by
    cases action with
    | declareGlobal => exact nomatch written
    | _ => rfl
  refine ⟨⟨?_, told.oneScope.handles, told.oneScope.frames⟩, fun number asked => ?_,
    fun number asked undeclared => ?_, fun asked => ?_⟩
  · rw [setScope, List.length_set]
    exact told.oneScope.scopes
  · rw [frame_setScope, declaredIn_cons, same, told.declared, Bool.false_or]
  · rw [declaredIn_cons, same, Bool.false_or] at undeclared
    rw [ownValue, unwritten]
    exact told.own number asked undeclared
  · rw [scope_setScope_self place, values, globalValue, unwritten, written, told.global]

theorem step (told : Told start past board) (fits : board.Fits action) :
    Told start (action :: past) (board.step action).2 := by
  obtain ⟨scopes, handles, frames⟩ := told.oneScope
  cases action with
  | newScope => exact absurd rfl fits.1
  | store number name value => exact told.write (fits.2 number rfl) rfl
  | delete number name => exact told.write (fits.2 number rfl) rfl
  | globalSet handle name value =>
      rw [Board.step, handles]
      exact told.globalWrite _ rfl rfl fun other => Table.get?_set ..
  | globalErase handle name =>
      rw [Board.step, handles]
      exact told.globalWrite _ rfl rfl fun other => Table.get?_erase ..
  | declareGlobal number name =>
      have self := frame_setFrame_self ((board.frame number).1.declareGlobal name)
        (fits.2 number rfl)
      refine told.quiet _ rfl rfl ⟨scopes, handles, fun other => ?_⟩ (fun other asked => ?_)
        (fun other => ?_) rfl <;> by_cases own : other = number
      · rw [Board.step, own, self, frames]
      · rw [Board.step, frame_setFrame_of_ne own, frames]
      · subst own
        rw [Board.step, self, Frame.isGlobal_declareGlobal]
        simp [Action.declares]
      · rw [Board.step, frame_setFrame_of_ne own]
        simp [Action.declares, Ne.symm own]
      · rw [Board.step, own, self]
        rfl
      · rw [Board.step, frame_setFrame_of_ne own]
  | newFrame handle function =>
      exact told.quiet _ rfl rfl (told.oneScope.newFrame handle function)
        (fun other asked => congrArg (·.contains asked) (names_newFrame ..).2)
        (fun other => (names_newFrame ..).1) rfl
  | shareScope handle =>
      exact told.quiet _ rfl rfl (told.oneScope.shareScope handle) (fun _ _ => rfl)
        (fun _ => rfl) rfl
  | _ => exact told.quiet board rfl rfl told.oneScope (fun _ _ => rfl) (fun _ => rfl) rfl

theorem load (told : Told start past board) (number : Nat) (name : Name) :
    (board.step (.load number name)).1 = .found (visible start past number name) := by
  change Reply.found ((board.frame number).1.load (board.scope (board.frame number).2) name) = _
  rw [told.oneScope.frames, Frame.load_eq, visible, told.declared, told.global]
  cases undeclared : declaredIn past number name with
  | true => rfl
  | false => rw [told.own number name undeclared]

theorem globalGet (told : Told start past board) (handle : Nat) (name : Name) :
    (board.step (.globalGet handle name)).1 = .found (globalValue start name past) := by
  rw [Board.step, told.oneScope.handles, told.global]

end Told

theorem told_of_history {calls : List (Name × Bindings)}
    (history : History (single scope calls) past) :
    Told (single scope calls) past ((single scope calls).run past.reverse) := by
  induction history with
  | start => exact Told.begin scope calls
  | next before fits ih =>
      rw [run_reverse_cons]
      exact ih.step fits

/-! ## Isolation -/

/-- A frame has declared a name global exactly if a declaration of this frame is in the past. -/
theorem declaredIn_iff :
    declaredIn past number name = true ↔ .declareGlobal number name ∈ past := by
  rw [declaredIn, List.any_eq_true]
  constructor
  · rintro ⟨action, member, declares⟩
    cases action with
    | declareGlobal frame other =>
        obtain ⟨rfl, rfl⟩ := of_decide_eq_true declares
        exact member
    | _ => exact nomatch declares
  · intro member
    exact ⟨_, member, by simp [Action.declares]⟩

theorem ownValue_of_untouched {rest earlier : List Action}
    (untouched : ∀ action ∈ rest, ∀ given, action.write? ≠ some (number, name, given)) :
    ownValue start number name (rest ++ earlier) = ownValue start number name earlier := by
  induction rest with
  | nil => rfl
  | cons action rest ih =>
      rw [List.forall_mem_cons] at untouched
      rw [List.cons_append, ownValue, ih untouched.2]
      cases written : action.write? with
      | none => rfl
      | some write =>
          obtain ⟨frame, other, given⟩ := write
          refine if_neg ?_
          rintro ⟨rfl, rfl⟩
          exact untouched.1 given written

theorem globalValue_of_undeclared {rest earlier : List Action}
    (undeclared : ∀ number, declaredIn (rest ++ earlier) number name = false)
    (untouched : ∀ action ∈ rest, ∀ given, action.globalWrite? ≠ some (name, given)) :
    globalValue start name (rest ++ earlier) = globalValue start name earlier := by
  induction rest with
  | nil => rfl
  | cons action rest ih =>
      rw [List.forall_mem_cons] at untouched
      have before (number : Nat) : declaredIn (rest ++ earlier) number name = false :=
        (Bool.or_eq_false_iff.mp (undeclared number)).2
      rw [List.cons_append, globalValue, ih before untouched.2]
      cases action.write? with
      | some write =>
          obtain ⟨frame, other, given⟩ := write
          refine if_neg ?_
          rintro ⟨declares, rfl⟩
          exact Bool.false_ne_true ((before frame).symm.trans declares)
      | none =>
          cases set : action.globalWrite? with
          | none => rfl
          | some write =>
              obtain ⟨other, given⟩ := write
              refine if_neg ?_
              rintro rfl
              exact untouched.1 given set

/-- What frames on one scope see of each other after a history. -/
structure Isolated (start : Board) (past : List Action) (board : Board) : Prop where
  /-- A name is global where declared so, else local if it is bound, else global again. -/
  load : ∀ number name,
    (board.step (.load number name)).1 = .found (visible start past number name)
  globalGet : ∀ handle name,
    (board.step (.globalGet handle name)).1 = .found (globalValue start name past)
  /-- A frame writes the scope at names it has declared only, and never another frame. -/
  writes : ∀ action number name given, number < board.frames.length →
    action.write? = some (number, name, given) →
      (∀ other, other ≠ number → (board.step action).2.frame other = board.frame other) ∧
        ∀ other, (declaredIn past number name = true → name ≠ other) →
          ((board.step action).2.scope 0).get? other = (board.scope 0).get? other
  readBack : ∀ number name value, number < board.frames.length →
    ((board.step (.store number name value)).2.step (.load number name)).1 = .found (some value)
  /-- A local stays what it is until its own frame writes or declares it. -/
  lasting : ∀ rest earlier number name value,
    past = rest ++ .store number name value :: earlier → declaredIn past number name = false →
      (∀ action ∈ rest, ∀ given, action.write? ≠ some (number, name, given)) →
        (board.step (.load number name)).1 = .found (some value)
  /-- What is written to a global is at once loaded by every frame that does not shadow it. -/
  shared : ∀ action number name given, number < board.frames.length →
    action.write? = some (number, name, given) → declaredIn past number name = true →
      ∀ other, declaredIn past other name = true ∨ ownValue start other name past = none →
        ((board.step action).2.step (.load other name)).1 = .found given
  /-- A name that no frame declares is changed through handles only. -/
  undeclared : ∀ rest earlier name,
    past = rest ++ earlier → (∀ number, declaredIn past number name = false) →
      (∀ action ∈ rest, ∀ given, action.globalWrite? ≠ some (name, given)) →
        (board.scope 0).get? name = ((start.run earlier.reverse).scope 0).get? name

theorem History.of_append {rest earlier : List Action}
    (history : History start (rest ++ earlier)) : History start earlier := by
  induction rest with
  | nil => exact history
  | cons action rest ih =>
      cases history with
      | next before _ => exact ih before

/-- Frames on one scope are isolated except for the names they have declared global. -/
theorem frames_are_isolated {scope : GlobalScope} {calls : List (Name × Bindings)}
    {past : List Action} (history : History (single scope calls) past) :
    Isolated (single scope calls) past ((single scope calls).run past.reverse) := by
  have told := told_of_history history
  refine ⟨told.load, told.globalGet, ?_, ?_, ?_, ?_, ?_⟩
  · intro action number name given inside written
    have result := told.oneScope.written inside written
    refine ⟨result.others, fun other apart => ?_⟩
    rw [result.puts.global, told.declared]
    refine if_neg ?_
    rintro ⟨declares, rfl⟩
    exact apart declares rfl
  · intro number name value inside
    have written : (Action.store number name value).write? = some (number, name, some value) := rfl
    have after := told.write inside written
    rw [after.load, visible, declaredIn_cons, ownValue, globalValue]
    cases declares : declaredIn past number name <;> simp [Action.write?, Action.declares, declares]
  · rintro rest earlier number name value rfl undeclared untouched
    rw [told.load, visible, undeclared, ownValue_of_untouched untouched, ownValue]
    simp [Action.write?]
  · intro action number name given inside written declares other seen
    have after := told.write inside written
    have global : globalValue (single scope calls) name (action :: past) = given := by
      rw [globalValue, written]
      exact if_pos ⟨declares, rfl⟩
    rw [after.load, visible, declaredIn_cons, declares_of_write written, Bool.false_or, global]
    cases shadow : declaredIn past other name with
    | true => rfl
    | false =>
        have different : ¬ (number = other ∧ name = name) := by
          rintro ⟨rfl, _⟩
          exact Bool.false_ne_true (shadow.symm.trans declares)
        have unbound := seen.resolve_left (Bool.eq_false_iff.mp shadow)
        rw [ownValue, written]
        refine congrArg Reply.found ?_
        change (if number = other ∧ name = name then given else _).or given = given
        rw [if_neg different, unbound, Option.none_or]
  · rintro rest earlier name rfl undeclared untouched
    rw [told.global, globalValue_of_undeclared undeclared untouched]
    exact ((told_of_history history.of_append).global name).symm

/-- Two activations of one function, of which the second declares its argument global. -/
theorem frames_are_isolated_recursive :
    let calls : List (Name × Bindings) := [("f", ⟨[("n", .int 1)]⟩), ("f", ⟨[("n", .int 2)]⟩)]
    let past : List Action := [.store 1 "n" (.int 3), .declareGlobal 1 "n"]
    let board := (single ∅ calls).run past.reverse
    History (single ∅ calls) past ∧
      (board.step (.load 0 "n")).1 = .found (some (.int 1)) ∧
      (board.step (.load 1 "n")).1 = .found (some (.int 3)) ∧
      (board.step (.globalGet 0 "n")).1 = .found (some (.int 3)) := by
  intro calls past board
  have history : History (single ∅ calls) past :=
    .next (.next .start ⟨nofun, fun _ same => Option.some.inj same ▸ Nat.lt_succ_self 1⟩)
      ⟨nofun, fun _ same => Option.some.inj same ▸ Nat.lt_succ_self 1⟩
  have isolated := frames_are_isolated history
  exact ⟨history, isolated.load 0 "n", isolated.load 1 "n", isolated.globalGet 0 "n"⟩

end Board

end ScriptCore
