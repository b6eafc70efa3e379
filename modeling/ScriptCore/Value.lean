import ScriptCore.Cause
import ScriptCore.Number.Word

/-!
# Values

Scalars, strings and tuples are their contents.  Objects, functions and error
values are known by an identity; what an object holds and what is attached to
it or to a function is kept in the heap, while the type of an object and all
parts of an error value never change and stay with the value.

Equality compares contents where there are only contents and identities
elsewhere.  It is not reflexive, because NaN differs from itself.
-/

namespace ScriptCore

/-- What tells one object, function or error value from all others. -/
structure Identity where
  index : Nat
deriving DecidableEq, Repr

/-- The place of a function body in the table of bodies. -/
structure BodyId where
  index : Nat
deriving DecidableEq, Repr

/-- A function implemented by the host; without arity it takes any number of arguments. -/
structure Native where
  name : Name
  arity : Option Nat
  doc : Option String
  body : BodyId
deriving DecidableEq

/-- What went wrong, with the text that is shown for it, written when the error was made. -/
structure Report where
  cause : Cause
  message : String
deriving DecidableEq

/-- The report of a cause, in its own words. -/
def Report.of (cause : Cause) : Report := ⟨cause, cause.message⟩

/-- A value of a script. -/
inductive Value where
  | none
  | bool (b : Bool)
  | int (n : Int64)
  | float (x : Float)
  | str (text : String)
  | tuple (items : List Value)
  /-- A list, a mapping or a plain instance, with its type. -/
  | object (id : Identity) (type : TypeId)
  /-- A type used as a value. -/
  | type (type : TypeId)
  | function (id : Identity)
  | native (native : Native)
  | boundMethod (receiver method : Value)
  /-- A raised error made into a value. -/
  | error (id : Identity) (type : TypeId) (report : Report) (payload : Value)
      (backtrace : List Name)

instance : Inhabited Value := ⟨.none⟩

/-- Induction on values, where a property of a tuple may rest on all of its items. -/
@[elab_as_elim, induction_eliminator]
theorem Value.induction {motive : Value → Prop} (none : motive .none)
    (bool : ∀ b, motive (.bool b)) (int : ∀ n, motive (.int n)) (float : ∀ x, motive (.float x))
    (str : ∀ text, motive (.str text))
    (tuple : ∀ items, (∀ item ∈ items, motive item) → motive (.tuple items))
    (object : ∀ id type, motive (.object id type)) (type : ∀ type, motive (.type type))
    (function : ∀ id, motive (.function id)) (native : ∀ native, motive (.native native))
    (boundMethod : ∀ receiver method, motive receiver → motive method →
      motive (.boundMethod receiver method))
    (error : ∀ id type report payload backtrace, motive payload →
      motive (.error id type report payload backtrace))
    (value : Value) : motive value := by
  have inItems (head : Value) (rest : List Value) (first : motive head)
      (others : ∀ item ∈ rest, motive item) : ∀ item ∈ head :: rest, motive item := by
    intro item member
    rcases List.mem_cons.mp member with rfl | later
    · exact first
    · exact others item later
  exact Value.rec none bool int float str tuple object type function native boundMethod error
    nofun inItems value

/-- An error on its way to a handler. -/
structure Error where
  /-- Decides which clauses accept the error. -/
  type : TypeId
  report : Report
  /-- The value attached when the error was raised. -/
  payload : Value
  /-- The functions the error has left, innermost first. -/
  backtrace : List Name

namespace Value

/-! ## Views -/

/-- The type of a value. -/
def typeOf : Value → TypeId
  | none => .none
  | bool _ => .bool
  | int _ => .int
  | float _ => .float
  | str _ => .str
  | tuple _ => .tuple
  | object _ t => t
  | type _ => .type
  | function _ => .function
  | native _ => .nativeFunction
  | boundMethod .. => .boundMethod
  | error _ t .. => t

def isNone : Value → Bool
  | none => true
  | _ => false

/-- Whether the value is of a kind that can be called. -/
def isCallable : Value → Bool
  | function _ | native _ | boundMethod .. | type _ => true
  | _ => false

/-- The integer a value stands for. -/
def asInt : Value → Option Int64
  | int n => some n
  | bool b => some (if b then 1 else 0)
  | _ => .none

/-- The number a value stands for, in floating point. -/
def asFloat : Value → Option Float
  | float x => some x
  | int n => some (Word.toFloat n)
  | bool b => some (if b then 1.0 else 0.0)
  | _ => .none

def asStr : Value → Option String
  | str text => some text
  | _ => .none

def asTuple : Value → Option (List Value)
  | tuple items => some items
  | _ => .none

def asType : Value → Option TypeId
  | type id => some id
  | _ => .none

/-- The error that was made into this value. -/
def asError : Value → Option Error
  | error _ t report payload backtrace => some ⟨t, report, payload, backtrace⟩
  | _ => .none

/-- The value of an optional value, `none` when there is none. -/
def ofOption (value : Option Value) : Value := value.getD none

/-- An optional string as a value. -/
def ofText (text : Option String) : Value := ofOption (text.map str)

/-- A count as a value. -/
def ofNat (n : Nat) : Value := int (Word.ofNat n)

/-! ## Equality -/

mutual

/-- Equality of values: exact between integers and truth values, in floating point between
an integer and a floating point number. -/
def equal : Value → Value → Bool
  | none, none => true
  | bool a, bool b => a == b
  | int a, int b => a == b
  | float a, float b => a == b
  | int a, float b => Word.toFloat a == b
  | float a, int b => Word.toFloat b == a
  | bool a, int b => (if a then 1 else 0) == b
  | int a, bool b => (if b then 1 else 0) == a
  | str a, str b => a == b
  | tuple a, tuple b => equalAll a b
  | object a _, object b _ => a == b
  | type a, type b => a == b
  | function a, function b => a == b
  | native a, native b => a.body == b.body
  | boundMethod r m, boundMethod s n => equal r s && equal m n
  | error a .., error b .. => a == b
  | _, _ => false

/-- Two lists of values are equal if they are equally long and equal item by item. -/
def equalAll : List Value → List Value → Bool
  | [], [] => true
  | a :: as, b :: bs => equal a b && equalAll as bs
  | _, _ => false

end

end Value

/-! ## Literals -/

/-- A value written in a program. -/
inductive Literal where
  | none
  | bool (b : Bool)
  | int (n : Int64)
  | float (x : Float)
  | str (text : String)

namespace Literal

/-- The value that is written. -/
def value : Literal → Value
  | none => .none
  | bool b => .bool b
  | int n => .int n
  | float x => .float x
  | str text => .str text

end Literal

/-! ## Errors -/

namespace Error

def cause (error : Error) : Cause := error.report.cause

/-- The text shown for an error. -/
def message (error : Error) : String := error.report.message

/-- An error of an explicit type. -/
def new (type : TypeId) (cause : Cause) (payload : Value) : Error := ⟨type, .of cause, payload, []⟩

/-- An error of the type its cause calls for, with its message as payload. -/
def ofCause (cause : Cause) : Error :=
  ⟨cause.defaultType, .of cause, .str cause.message, []⟩

/-- The error after it has left the function `name`. -/
def leave (error : Error) (name : Name) : Error :=
  { error with backtrace := error.backtrace ++ [name] }

/-- The error as a value of the given identity. -/
def toValue (error : Error) (id : Identity) : Value :=
  .error id error.type error.report error.payload error.backtrace

theorem asError_toValue (error : Error) (id : Identity) :
    (error.toValue id).asError = some error := rfl

end Error

end ScriptCore
