import ScriptCore.Defect
import ScriptCore.Value

/-!
# The call stack

The call stack lists the functions that are running, the most recent first,
and refuses a call beyond its limit.  It never holds more than the limit.
-/

namespace ScriptCore

/-- The greatest number of running functions unless a host sets another. -/
def CallStack.defaultLimit : Nat := 1000

/-- The running functions and how many there may be. -/
@[ext]
structure CallStack where
  frames : List Name := []
  /-- The greatest number of running functions; without one there is no bound. -/
  limit : Option Nat := some CallStack.defaultLimit
  within : ∀ most ∈ limit, frames.length ≤ most := by exact fun _ _ => Nat.zero_le _

namespace CallStack

/-- The number of running functions. -/
def depth (stack : CallStack) : Nat := stack.frames.length

def isEmpty (stack : CallStack) : Bool := stack.frames.isEmpty

/-- The function called most recently. -/
def current (stack : CallStack) : Option Name := stack.frames.head?

/-- The function called most recently has this name. -/
def add (stack : CallStack) (name : Name) (room : ∀ most ∈ stack.limit, stack.depth < most) :
    CallStack where
  frames := name :: stack.frames
  limit := stack.limit
  within most bound := room most bound

/-- Enter a function unless the limit is reached; a refused function is not on the stack. -/
def push (stack : CallStack) (name : Name) : Except Error CallStack :=
  match bound : stack.limit with
  | some limit =>
      if room : stack.depth < limit then
        .ok (stack.add name fun most same => by
          rw [bound, Option.mem_def, Option.some_inj] at same
          exact same ▸ room)
      else .error (.ofCause (.recursionLimit limit))
  | none => .ok (stack.add name fun most same => by simp [bound] at same)

/-- Leave the function called most recently. -/
def pop (stack : CallStack) : Except Defect CallStack :=
  match running : stack.frames with
  | [] => .error .emptyCallStack
  | _ :: rest =>
      .ok
        { frames := rest
          limit := stack.limit
          within := fun most same => by
            have fits := stack.within most same
            rw [running] at fits
            exact Nat.le_of_succ_le fits }

/-- A function that is let in is on top, and nothing else is different. -/
theorem push_eq_ok {stack next : CallStack} {name : Name} (pushed : stack.push name = .ok next) :
    next.frames = name :: stack.frames ∧ next.limit = stack.limit := by
  unfold push at pushed
  split at pushed
  · split at pushed
    · cases pushed
      exact ⟨rfl, rfl⟩
    · cases pushed
  · cases pushed
    exact ⟨rfl, rfl⟩

/-- While there is room every function is let in. -/
theorem push_of_room {stack : CallStack} (name : Name)
    (room : ∀ most ∈ stack.limit, stack.depth < most) :
    stack.push name = .ok (stack.add name room) := by
  unfold push
  split
  · rename_i limit bound
    rw [dif_pos (room limit bound)]
  · rfl

theorem depth_lt_of_push_eq_ok {stack next : CallStack} {name : Name}
    (pushed : stack.push name = .ok next) : ∀ most ∈ stack.limit, stack.depth < most := by
  intro most bound
  obtain ⟨frames, limit⟩ := push_eq_ok pushed
  have fits := next.within most (limit ▸ bound)
  rw [frames] at fits
  exact fits

/-- Only a full stack refuses a function. -/
theorem limit_eq_of_push_eq_error {stack : CallStack} {name : Name} {error : Error}
    (refused : stack.push name = .error error) : stack.limit = some stack.depth := by
  unfold push at refused
  split at refused
  · rename_i limit bound
    split at refused
    · cases refused
    · rename_i full
      have same : stack.depth = limit :=
        Nat.le_antisymm (stack.within limit bound) (Nat.le_of_not_lt full)
      rw [bound, same]
  · cases refused

/-- Leaving the function on top gives back the stack below it. -/
theorem pop_of_frames {stack below : CallStack} {name : Name}
    (frames : stack.frames = name :: below.frames) (limit : stack.limit = below.limit) :
    stack.pop = .ok below := by
  unfold pop
  split
  · rename_i none
    rw [none] at frames
    cases frames
  · rename_i top rest running
    rw [running] at frames
    cases frames
    exact congrArg Except.ok (CallStack.ext rfl limit)

theorem pop_eq_ok {stack below : CallStack} (popped : stack.pop = .ok below) :
    (∃ name, stack.frames = name :: below.frames) ∧ below.limit = stack.limit := by
  unfold pop at popped
  split at popped
  · cases popped
  · rename_i name rest running
    cases popped
    exact ⟨⟨name, running⟩, rfl⟩

theorem pop_eq_error {stack : CallStack} {defect : Defect} (popped : stack.pop = .error defect) :
    stack.frames = [] ∧ defect = .emptyCallStack := by
  unfold pop at popped
  split at popped
  · rename_i empty
    cases popped
    exact ⟨empty, rfl⟩
  · cases popped

/-- A function can be left right after it was entered. -/
theorem pop_of_push {stack next : CallStack} {name : Name} (pushed : stack.push name = .ok next) :
    next.pop = .ok stack :=
  pop_of_frames (push_eq_ok pushed).1 (push_eq_ok pushed).2

end CallStack

end ScriptCore
