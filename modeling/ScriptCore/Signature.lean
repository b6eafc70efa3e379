import ScriptCore.Value

/-!
# Signatures

A signature is a parameter list that has been accepted: names are distinct,
collectors have no default, and the kinds come in the order positional,
variadic collector, keyword-only, keyword collector, where positional
parameters with a default follow those without.

A list that is not accepted is reported at the first parameter that breaks a
rule.
-/

namespace ScriptCore

/-- How a parameter gets its value. -/
inductive ParameterKind where
  /-- By position or by keyword. -/
  | positional
  /-- Collects the positional arguments that are left over into a tuple. -/
  | variadic
  /-- By keyword only. -/
  | keywordOnly
  /-- Collects the keywords that are left over into a mapping. -/
  | keywordCollector
deriving DecidableEq, Repr

namespace ParameterKind

/-- The kind in words. -/
def describe : ParameterKind → String
  | positional => "positional-or-keyword"
  | variadic => "variadic"
  | keywordOnly => "keyword-only"
  | keywordCollector => "keyword collector"

def isCollector : ParameterKind → Bool
  | variadic | keywordCollector => true
  | _ => false

end ParameterKind

/-- A value that can be made anew for every call, with all containers in it. -/
inductive Recipe where
  | literal (written : Literal)
  /-- An instance that holds nothing. -/
  | plain (type : TypeId)
  | tuple (items : List Recipe)
  | list (items : List Recipe)
  /-- A mapping of the keys to what is made for them. -/
  | dict (keys : List Literal) (values : List Recipe)

namespace Recipe

def emptyList : Recipe := .list []

def emptyDict : Recipe := .dict [] []

def integer (n : Int64) : Recipe := .literal (.int n)

end Recipe

/-- What a parameter is bound to when no argument is given for it. -/
inductive Default where
  /-- One value for all calls. -/
  | shared (value : Value)
  /-- A new value for every call. -/
  | fresh (recipe : Recipe)

/-- A declared parameter. -/
structure Parameter where
  name : Name
  kind : ParameterKind
  default : Option Default

namespace Parameter

def isCollector (p : Parameter) : Bool := p.kind.isCollector

def isPositional (p : Parameter) : Bool := p.kind = .positional

def hasDefault (p : Parameter) : Bool := p.default.isSome

end Parameter

/-! ## Acceptance -/

/-- The rule a parameter breaks. -/
inductive SignatureFault where
  | duplicateParameter
  | multipleVariadic
  | multipleKeywordCollectors
  | afterKeywordCollector
  | positionalAfterVariadic
  | keywordOnlyBeforeVariadic
  | nonDefaultAfterDefault
  | collectorWithDefault
deriving DecidableEq, Repr

/-- A refused parameter list: the rule that is broken and the parameter that breaks it. -/
structure SignatureError where
  fault : SignatureFault
  parameter : Name
deriving DecidableEq, Repr

/-- The reason in words. -/
def SignatureError.describe (error : SignatureError) : String :=
  let name := error.parameter
  match error.fault with
  | .duplicateParameter => s!"duplicate parameter '{name}'"
  | .multipleVariadic => s!"second variadic parameter '*{name}'"
  | .multipleKeywordCollectors => s!"second keyword collector '**{name}'"
  | .afterKeywordCollector => s!"parameter '{name}' follows the keyword collector"
  | .positionalAfterVariadic =>
      s!"positional parameter '{name}' follows the variadic parameter"
  | .keywordOnlyBeforeVariadic =>
      s!"keyword-only parameter '{name}' precedes the variadic parameter"
  | .nonDefaultAfterDefault => s!"non-default parameter '{name}' follows default parameter"
  | .collectorWithDefault => s!"collector parameter '{name}' cannot have a default"

namespace Signature

/-- What has been seen of a parameter list so far. -/
structure Scan where
  names : List Name := []
  defaulted : Bool := false
  variadic : Bool := false
  keywordOnly : Bool := false
  keywordCollector : Bool := false

/-- Accept one more parameter, or name the first rule it breaks. -/
def Scan.step (scan : Scan) (p : Parameter) : Except SignatureFault Scan :=
  let next := { scan with names := p.name :: scan.names }
  if p.name ∈ scan.names then .error .duplicateParameter
  else if scan.keywordCollector then
    .error (if p.kind = .keywordCollector then .multipleKeywordCollectors
      else .afterKeywordCollector)
  else if p.isCollector ∧ p.hasDefault then .error .collectorWithDefault
  else match p.kind with
    | .positional =>
        if scan.variadic ∨ scan.keywordOnly then .error .positionalAfterVariadic
        else if p.hasDefault then .ok { next with defaulted := true }
        else if scan.defaulted then .error .nonDefaultAfterDefault
        else .ok next
    | .variadic =>
        if scan.variadic then .error .multipleVariadic
        else if scan.keywordOnly then .error .keywordOnlyBeforeVariadic
        else .ok { next with variadic := true }
    | .keywordOnly => .ok { next with keywordOnly := true }
    | .keywordCollector => .ok { next with keywordCollector := true }

/-- Accept parameters one after the other. -/
def Scan.run (scan : Scan) : List Parameter → Except SignatureError Scan
  | [] => .ok scan
  | p :: rest =>
      match scan.step p with
      | .ok next => next.run rest
      | .error fault => .error ⟨fault, p.name⟩

end Signature

/-- An accepted parameter list. -/
structure Signature where
  parameters : List Parameter
  accepted : ∃ scan, Signature.Scan.run {} parameters = .ok scan

namespace Signature

/-- Accept a parameter list. -/
def ofParameters (parameters : List Parameter) : Except SignatureError Signature :=
  match outcome : Scan.run {} parameters with
  | .ok scan => .ok ⟨parameters, scan, outcome⟩
  | .error error => .error error

/-- The signature without parameters. -/
def empty : Signature := ⟨[], {}, rfl⟩

/-! ## Views -/

/-- The positional parameters, which come first. -/
def positional (s : Signature) : List Parameter := s.parameters.takeWhile (·.isPositional)

def variadic? (s : Signature) : Option Parameter :=
  s.parameters.find? (·.kind = .variadic)

def keywordCollector? (s : Signature) : Option Parameter :=
  s.parameters.find? (·.kind = .keywordCollector)

def keywordOnly (s : Signature) : List Parameter :=
  s.parameters.filter (·.kind = .keywordOnly)

/-- The place of the parameter called `name`. -/
def positionOf? (s : Signature) (name : Name) : Option Nat :=
  s.parameters.findIdx? (·.name = name)

/-- The number of positional parameters without default. -/
def requiredCount (s : Signature) : Nat := s.positional.countP (!·.hasDefault)

def size (s : Signature) : Nat := s.parameters.length

def isEmpty (s : Signature) : Bool := s.parameters.isEmpty

end Signature

end ScriptCore
