import ScriptCore.Clause
import ScriptCore.Signature

/-!
# Programs

A host drives the interpreter with expressions.  Most of them evaluate their
operands from left to right and then perform one operation on the values; the
remaining ones decide whether, how often and under which protection other
expressions are evaluated.
-/

namespace ScriptCore

/-- How a program names a type. -/
inductive TypeRef where
  /-- The type registered under a name. -/
  | named (name : Name)
  /-- The type with a number, registered or not. -/
  | numbered (index : Nat)
deriving DecidableEq

namespace TypeRef

/-- The type meant by a reference; a name must be registered. -/
def resolve (registry : Registry) : TypeRef → Except Error TypeId
  | named name => match registry.lookup name with
      | some type => .ok type
      | none => .error (.ofCause (.undefinedName name))
  | numbered index => .ok ⟨index⟩

end TypeRef

/-! ## Operations -/

/-- Operations on attributes. -/
inductive AttributeOp where
  | get (name : Name)
  | getOr (name : Name)
  | has (name : Name)
  | set (name : Name)
  | delete (name : Name)
  /-- The names of the attributes attached to the operand itself. -/
  | ownNames
  | ownHas (name : Name)
  | ownCount
deriving DecidableEq

/-- The contents a new object starts with. -/
inductive Shape where
  | plain
  | list
  | mapping
deriving DecidableEq

/-- Operations that make values. -/
inductive MakeOp where
  | tuple
  | list
  /-- Keys and values alternate. -/
  | dict
  | object (type : TypeRef) (shape : Shape)
  | typeValue (type : TypeRef)
  | boundMethod
  /-- An error value; the operands are its type and its payload. -/
  | error
  /-- A host function that gives the tuple of its arguments. -/
  | native (name : Name) (arity : Option Nat) (doc : Option String)
  /-- The operands are the parent (the value `none` if there is none) and the members. -/
  | defineClass (name : Name) (members : List Name)
deriving DecidableEq

/-- Operations on names. -/
inductive NameOp where
  | resolve (name : Name)
  | load (name : Name)
  | store (name : Name)
  | declareGlobal (name : Name)
  | isGlobal (name : Name)
  | unbind (name : Name)
  | localOnly (name : Name)
  | localCount
  | functionName
  | globalGet (name : Name)
  | globalSet (name : Name)
  | globalHas (name : Name)
  | globalErase (name : Name)
  | globalCount
  | builtin (name : Name)
  | setBuiltin (name : Name)
deriving DecidableEq

/-- Operations on errors, handlers and running calls. -/
inductive ErrorOp where
  | raise
  | raiseNew (type : TypeRef)
  | reraise
  /-- The operands are a boolean and perhaps a message. -/
  | assert
  | current
  | handlingDepth
  | callDepth
  | callLimit
  | backtrace
  | inspect
  | summary
deriving DecidableEq

/-- Operations on types. -/
inductive TypeOp where
  | register (name : Name) (parent : TypeRef)
  /-- The operands are the type and the value. -/
  | setCapability (name : Name)
  | eraseCapability (type : TypeRef) (name : Name)
  | setDoc (type : TypeRef) (text : String)
  | docOf (type : TypeRef)
  | resolve (type : TypeRef) (name : Name)
  | ownCapability (type : TypeRef) (name : Name)
  | parentOf (type : TypeRef)
  | nameOf (type : TypeRef)
  | typeName (type : TypeRef)
  | lookup (name : Name)
  | ancestors (type : TypeRef)
  | isSubtype (type ancestor : TypeRef)
  | contains (type : TypeRef)
  | count
  | number (type : TypeRef)
  | typeOf
  | typeNameOf
  | isInstance (type : TypeRef)
deriving DecidableEq

/-- Operations on the contents of values. -/
inductive ValueOp where
  | repr
  | display
  /-- The text with the names of the built-in types only. -/
  | plainText
  | equal
  | truthy
  | help
  | mappingGet
  | mappingInsert
  | mappingContains
  | mappingErase
  | mappingSize
  | mappingIsEmpty
  | listPush
  | listGet
  | listItems
  | length
deriving DecidableEq

/-- Everything that can be done with values without calling back into a program. -/
inductive Operation where
  | attributes (op : AttributeOp)
  | make (op : MakeOp)
  | names (op : NameOp)
  | errors (op : ErrorOp)
  | types (op : TypeOp)
  | values (op : ValueOp)
deriving DecidableEq

/-- The ways to call a value; `keywords` name the last operands. -/
inductive CallForm where
  /-- Call the first operand. -/
  | value (keywords : List Name)
  /-- Call an attribute of the first operand. -/
  | method (name : Name) (keywords : List Name)
  /-- Call the method that the type of the first operand defines, with all operands. -/
  | fast (name : Name)
deriving DecidableEq

/-! ## Expressions -/

/-- The default written in a declaration. -/
inductive DeclaredDefault where
  | none
  /-- The value of the next default expression. -/
  | shared
  | fresh (recipe : Recipe)

/-- A parameter as written in a function definition. -/
structure Declaration where
  name : Name
  kind : ParameterKind
  default : DeclaredDefault

/-- A clause as written in a program. -/
inductive ClauseForm where
  | types (types : List TypeRef)
  | unresolved (name : Name)
  | bare
deriving DecidableEq

/-- An expression of a host program; a function body is one expression. -/
inductive Expr where
  | literal (literal : Literal)
  /-- All expressions in order; the value of the last one. -/
  | sequence (items : List Expr)
  | branch (condition yes no : Expr)
  /-- One expression several times. -/
  | loop (count : Nat) (body : Expr)
  | call (form : CallForm) (operands : List Expr)
  | apply (operation : Operation) (operands : List Expr)
  | define (name : Name) (declarations : List Declaration) (doc : Option String) (body : Expr)
      (defaults : List Expr)
  /-- A try region with one handler for each clause; `binding` names the error in a handler. -/
  | guarded (clauses : List ClauseForm) (binding : Option Name) (body : Expr)
      (handlers : List Expr)

namespace Expr

/-! ## Composed expressions -/

/-- A type as an operand. -/
def type (ref : TypeRef) : Expr :=
  .apply (.make (.typeValue ref)) []

/--
Fail unless a condition is true.  Its truth is decided before the message is
evaluated, so the message cannot change the verdict.
-/
def assertion (condition : Expr) (message : Option Expr) : Expr :=
  .apply (.errors .assert) (.apply (.values .truthy) [condition] :: message.toList)

/-- An error value; its type is found before the payload is evaluated. -/
def errorValue (ref : TypeRef) (payload : Expr) : Expr :=
  .apply (.make .error) [type ref, payload]

/-- Define a class; its parent is found before the members are evaluated. -/
def defineClass (name : Name) (parent : Option TypeRef) (members : List (Name × Expr)) : Expr :=
  .apply (.make (.defineClass name (members.map (·.1))))
    ((parent.map type).getD (.literal .none) :: members.map (·.2))

/-- Define a capability of a type; the type is found before the value is evaluated. -/
def setCapability (ref : TypeRef) (name : Name) (value : Expr) : Expr :=
  .apply (.types (.setCapability name)) [type ref, value]

end Expr

namespace Declaration

/-- The parameters declared, where shared defaults take `values` in order. -/
def parameters : List Declaration → List Value → List Parameter
  | [], _ => []
  | ⟨name, kind, .none⟩ :: rest, values => ⟨name, kind, none⟩ :: parameters rest values
  | ⟨name, kind, .fresh recipe⟩ :: rest, values =>
      ⟨name, kind, some (.fresh recipe)⟩ :: parameters rest values
  | ⟨name, kind, .shared⟩ :: rest, values =>
      ⟨name, kind, some (.shared (values.headD .none))⟩ :: parameters rest values.tail

end Declaration

namespace ClauseForm

/-- The types meant by a list of references. -/
def resolveTypes (registry : Registry) : List TypeRef → Except Error (List TypeId)
  | [] => .ok []
  | ref :: rest => do
      let first ← ref.resolve registry
      let others ← resolveTypes registry rest
      return first :: others

def resolve (registry : Registry) : ClauseForm → Except Error Clause
  | types refs => (resolveTypes registry refs).map .types
  | unresolved name => .ok (.unresolved name)
  | bare => .ok .bare

def resolveAll (registry : Registry) : List ClauseForm → Except Error (List Clause)
  | [] => .ok []
  | form :: rest => do
      let first ← form.resolve registry
      let others ← resolveAll registry rest
      return first :: others

end ClauseForm

end ScriptCore
