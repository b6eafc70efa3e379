import ScriptCore.Registry

/-!
# Clauses

A clause decides which errors a handler takes.  The clauses of a try region
are asked in order, and the first one that accepts the error wins.
-/

namespace ScriptCore

/-- Which errors a handler takes. -/
inductive Clause where
  /-- Errors of any of these types and of types derived from them. -/
  | types (types : List TypeId)
  /-- A name that stands for no type: no error at all. -/
  | unresolved (name : Name)
  /-- Every error. -/
  | bare
deriving DecidableEq

namespace Clause

/-- Whether the clause takes errors of this type. -/
def accepts (registry : Registry) (raised : TypeId) : Clause → Bool
  | types filter => filter.any (registry.isSubtype raised ·)
  | unresolved _ => false
  | bare => true

/-- Whether the clause takes this error. -/
def matchesError (registry : Registry) (error : Error) (clause : Clause) : Bool :=
  clause.accepts registry error.type

/-- The first clause that takes the error. -/
def select (registry : Registry) (error : Error) (clauses : List Clause) : Option Nat :=
  clauses.findIdx? (·.matchesError registry error)

end Clause

end ScriptCore
