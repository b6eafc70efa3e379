import ScriptCore.Clause
import ScriptCore.Defect

/-!
# Try regions

A try region protects a body.  When the body raises, the clauses of the region
decide which handler runs, or that the error goes on to the next region.
-/

namespace ScriptCore

/-- How far a try region has come. -/
inductive Region where
  /-- The body is running. -/
  | armed
  /-- The clauses are being asked. -/
  | matching
  /-- The handler with this number is running. -/
  | handling (index : Nat)
  /-- Left normally. -/
  | resolved
  /-- Left by an error. -/
  | propagating
deriving DecidableEq, Repr

namespace Region

/-- Where an error goes that the body raised. -/
inductive Route where
  | handle (index : Nat)
  | propagate
deriving DecidableEq, Repr

/-- The body has ended without an error. -/
def bodyExit : Region → Except Defect Region
  | armed => .ok resolved
  | _ => .error .bodyExitOutsideArmed

/-- The body has raised an error. -/
def raise (registry : Registry) (error : Error) (clauses : List Clause) :
    Region → Except Defect (Route × Region)
  | armed => match Clause.select registry error clauses with
      | some index => .ok (.handle index, handling index)
      | none => .ok (.propagate, propagating)
  | _ => .error .raiseOutsideArmed

/-- The handler has ended, by an error if `raised`. -/
def handlerExit (raised : Bool) : Region → Except Defect Region
  | handling _ => .ok (if raised then propagating else resolved)
  | _ => .error .handlerExitWithoutHandler

end Region

end ScriptCore
