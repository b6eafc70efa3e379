import ScriptCore.TypeId

/-!
# Causes of errors

A cause says in structured form what went wrong.  Its message, the type it is
raised as and whether it is a binding error follow from it.
-/

namespace ScriptCore

/-- What went wrong. -/
inductive Cause where
  /-- More positional arguments than the signature takes. -/
  | tooManyPositional (function : Name) (expected got : Nat)
  /-- A parameter without argument and without default. -/
  | missingArgument (function parameter : Name)
  /-- A keyword that no parameter takes. -/
  | unexpectedKeyword (function keyword : Name)
  /-- A parameter given by position and by keyword. -/
  | multipleValues (function parameter : Name)
  /-- One keyword given twice. -/
  | repeatedKeyword (function keyword : Name)
  /-- A parameter list that no function can have. -/
  | invalidSignature (function : Name) (reason : String)
  | noSuchAttribute (typeName name : Name)
  | cannotSetAttribute (typeName : Name)
  | cannotDeleteAttribute (typeName name : Name)
  /-- A missing mapping key, as written. -/
  | keyNotFound (key : String)
  | indexOutOfRange (index : Int64) (length : Nat)
  | notCallable (typeName : Name)
  /-- A native function called with a wrong number of arguments. -/
  | nativeArity (name : Name) (expected got : Nat)
  /-- A native function called with keywords. -/
  | nativeKeywords (name : Name)
  /-- A call beyond the limit of nested calls. -/
  | recursionLimit (depth : Nat)
  | assertionFailed (message : Option String)
  | undefinedName (name : Name)
  | typeMismatch (expected got : Name)
  /-- An integer result that does not fit. -/
  | arithmeticOverflow (operation : String)
  /-- A bare raise outside every handler. -/
  | noActiveException
  /-- A failed input or output operation of the host. -/
  | stream (message : String)
  /-- An explicit raise by a script. -/
  | raised (message : String)
deriving DecidableEq

namespace Cause

/-- The type an error with this cause has unless it was raised explicitly. -/
def defaultType : Cause → TypeId
  | tooManyPositional .. | missingArgument .. | unexpectedKeyword .. | multipleValues ..
  | repeatedKeyword .. | invalidSignature .. | cannotSetAttribute .. | cannotDeleteAttribute ..
  | notCallable .. | nativeArity .. | nativeKeywords .. | typeMismatch .. => .typeError
  | noSuchAttribute .. => .attributeError
  | keyNotFound .. => .keyError
  | indexOutOfRange .. => .indexError
  | recursionLimit .. => .recursionError
  | assertionFailed .. => .assertionError
  | undefinedName .. => .nameError
  | arithmeticOverflow .. => .valueError
  | noActiveException => .runtimeError
  | stream .. => .ioError
  | raised .. => .exception

/-- Whether call site and signature disagree, or the signature itself is wrong. -/
def isBinding : Cause → Bool
  | tooManyPositional .. | missingArgument .. | unexpectedKeyword .. | multipleValues ..
  | repeatedKeyword .. | invalidSignature .. => true
  | _ => false

/-- The text shown for the cause. -/
def message : Cause → String
  | tooManyPositional function expected got =>
      let word := if expected = 1 then "argument" else "arguments"
      let verb := if got = 1 then "was" else "were"
      s!"{function}() takes {expected} positional {word} but {got} {verb} given"
  | missingArgument function parameter =>
      s!"{function}() missing required argument '{parameter}'"
  | unexpectedKeyword function keyword =>
      s!"{function}() got an unexpected keyword argument '{keyword}'"
  | multipleValues function parameter =>
      s!"{function}() got multiple values for argument '{parameter}'"
  | repeatedKeyword function keyword => s!"{function}() keyword argument repeated: '{keyword}'"
  | invalidSignature function reason => s!"invalid signature for {function}(): {reason}"
  | noSuchAttribute typeName name => s!"type '{typeName}' has no attribute '{name}'"
  | cannotSetAttribute _ => "cannot set attribute"
  | cannotDeleteAttribute typeName name =>
      s!"cannot delete attribute '{name}' of '{typeName}'"
  | keyNotFound key => key
  | indexOutOfRange index length => s!"index {index.toInt} out of range for length {length}"
  | notCallable typeName => s!"'{typeName}' object is not callable"
  | nativeArity _ expected got => s!"expected {expected} arguments, but got {got}"
  | nativeKeywords _ => "native_function does not accept keyword arguments"
  | recursionLimit _ => "maximum recursion depth exceeded"
  | assertionFailed message => message.getD ""
  | undefinedName name => s!"name '{name}' is not defined"
  | typeMismatch expected got => s!"expected '{expected}', but got '{got}'"
  | arithmeticOverflow operation => s!"integer overflow in {operation}"
  | noActiveException => "no active exception to reraise"
  | stream message => message
  | raised message => message

end Cause

end ScriptCore
