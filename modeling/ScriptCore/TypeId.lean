/-!
# Type identifiers

A type is identified by its place in the registry.  The built-in types are
registered first and in a fixed order, so their identifiers are known before
any registry exists.
-/

namespace ScriptCore

/-- A name in a script: of an attribute, a parameter, a variable or a type. -/
abbrev Name := String

/-- The place of a type in the registry. -/
structure TypeId where
  index : Nat
deriving DecidableEq, Repr, Inhabited

namespace TypeId

/-! ## Built-in types -/

def object : TypeId := ⟨0⟩
def type : TypeId := ⟨1⟩
def none : TypeId := ⟨2⟩
def bool : TypeId := ⟨3⟩
def int : TypeId := ⟨4⟩
def float : TypeId := ⟨5⟩
def str : TypeId := ⟨6⟩
def tuple : TypeId := ⟨7⟩
def list : TypeId := ⟨8⟩
def dict : TypeId := ⟨9⟩
def function : TypeId := ⟨10⟩
def nativeFunction : TypeId := ⟨11⟩
def boundMethod : TypeId := ⟨12⟩
def exception : TypeId := ⟨13⟩
def typeError : TypeId := ⟨14⟩
def attributeError : TypeId := ⟨15⟩
def lookupError : TypeId := ⟨16⟩
def keyError : TypeId := ⟨17⟩
def indexError : TypeId := ⟨18⟩
def assertionError : TypeId := ⟨19⟩
def nameError : TypeId := ⟨20⟩
def recursionError : TypeId := ⟨21⟩
def runtimeError : TypeId := ⟨22⟩
def ioError : TypeId := ⟨23⟩
def valueError : TypeId := ⟨24⟩

/-- The built-in types in registration order: identifier, name and parent. -/
def builtins : List (TypeId × Name × Option TypeId) :=
  [(object, "object", .none),
   (type, "type", some object),
   (none, "NoneType", some object),
   (bool, "bool", some object),
   (int, "int", some object),
   (float, "float", some object),
   (str, "str", some object),
   (tuple, "tuple", some object),
   (list, "list", some object),
   (dict, "dict", some object),
   (function, "function", some object),
   (nativeFunction, "native_function", some object),
   (boundMethod, "bound_method", some object),
   (exception, "Exception", some object),
   (typeError, "TypeError", some exception),
   (attributeError, "AttributeError", some exception),
   (lookupError, "LookupError", some exception),
   (keyError, "KeyError", some lookupError),
   (indexError, "IndexError", some lookupError),
   (assertionError, "AssertionError", some exception),
   (nameError, "NameError", some exception),
   (recursionError, "RecursionError", some exception),
   (runtimeError, "RuntimeError", some exception),
   (ioError, "IOError", some exception),
   (valueError, "ValueError", some exception)]

/-- Identifiers from here on belong to user types. -/
def firstUser : Nat := 25

theorem length_builtins : builtins.length = firstUser := rfl

/-- A built-in type stands in the table at its own identifier. -/
theorem builtins_indexed : builtins.map (·.1) = (List.range firstUser).map TypeId.mk := by
  decide

/-- Whether the identifier is that of a built-in type. -/
def isBuiltin (id : TypeId) : Bool := id.index < firstUser

/-- The name of a built-in type. -/
def builtinName (id : TypeId) : Option Name := builtins[id.index]?.map (·.2.1)

/-- Identifiers are ordered by registration. -/
def before (left right : TypeId) : Bool := left.index < right.index

/-- Diagnostic text: the name of a built-in type, the number of any other. -/
def diagnostic (id : TypeId) : String :=
  match id.builtinName with
  | some name => s!"TypeId::{name}"
  | .none => s!"TypeId({id.index})"

end TypeId

/-- A way to name types when values are written. -/
abbrev TypeNames := TypeId → Option Name

end ScriptCore
