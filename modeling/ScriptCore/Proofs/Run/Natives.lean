import ScriptCore.Call

/-!
# Calls of built-in functions

A native function runs the body that it was defined with.  A built-in function that does
not call back does with the world what it does by itself, and nothing else happens.
-/

namespace ScriptCore

/-- The native function runs this built-in function and takes as many arguments. -/
structure World.Installed (world : World) (builtin : Builtin) (arity : Option Nat)
    (native : Native) : Prop where
  arity : native.arity = arity
  body : world.body? native.body = some (.native builtin)

/-- The built-in functions that never call anything. -/
def Builtin.IsSimple : Builtin → Prop
  | length | sum => False
  | _ => True

namespace Machine

variable {machine : Machine} {native : Native} {arguments : List Value} {builtin : Builtin}
  {arity : Option Nat}

theorem nativeBody_of_installed (installed : machine.world.Installed builtin arity native)
    (given : ∀ count ∈ arity, arguments.length = count) :
    nativeBody native (.ofList arguments) machine.world = .ok builtin := by
  have accepted : ¬native.arity.any (· ≠ arguments.length) = true := by
    rw [installed.arity, Bool.not_eq_true, Option.any_eq_false]
    intro count expected
    simp [given count expected]
  simp only [nativeBody, Arguments.ofList, Arguments.hasKeywords, List.isEmpty_nil, Bool.not_true,
    Bool.false_eq_true, if_false, installed.body]
  exact if_neg accepted

/-- Changes that are the same for the world of a machine do the same to the machine. -/
theorem agree_update {step other : World → Except Error (Value × World)}
    (same : step machine.world = other machine.world) :
    (update step).Agree (update other) machine := by
  constructor
  · simp only [update, Computation.update, same]
  · simp only [update, Computation.update, same]

/-- With acceptable arguments a native function runs its body. -/
theorem callNative_of_body {given : Arguments}
    (body : nativeBody native given machine.world = .ok builtin) (call : Caller) :
    (callNative call native given).Agree (runNative call builtin given.positional) machine :=
  Computation.agree_inspect_bind_of_ok
    (fun machine : Machine => nativeBody native given machine.world) body _

theorem call_installed (installed : machine.world.Installed builtin arity native)
    (given : ∀ count ∈ arity, arguments.length = count) (depth : Nat) :
    (call (depth + 1) (.native native) (.ofList arguments)).Agree
      (runNative (call depth) builtin arguments) machine :=
  callNative_of_body (nativeBody_of_installed installed given) (call depth)

theorem runNative_of_simple (call : Caller) (simple : builtin.IsSimple) (arguments : List Value) :
    runNative call builtin arguments = update fun world => builtin.runSimple world arguments := by
  cases builtin with
  | length => cases simple
  | sum => cases simple
  | _ => rfl

/-- Calling a built-in function that does not call back does what it does with the world. -/
theorem call_simple (installed : machine.world.Installed builtin arity native)
    (given : ∀ count ∈ arity, arguments.length = count) (simple : builtin.IsSimple)
    (depth : Nat) :
    (call (depth + 1) (.native native) (.ofList arguments)).Agree
      (update fun world => builtin.runSimple world arguments) machine :=
  runNative_of_simple (call depth) simple arguments ▸ call_installed installed given depth

end Machine

end ScriptCore
