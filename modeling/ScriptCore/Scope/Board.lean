import ScriptCore.Scope.Frame

/-!
# Scopes held by several owners

A board keeps global scopes, handles on them and frames.  Two handles on one
scope, and all frames made from them, see each other's writes.
-/

namespace ScriptCore

/-- Global scopes with their handles and frames, all numbered from zero. -/
structure Board where
  scopes : List GlobalScope := [∅]
  /-- The scope of each handle. -/
  handles : List Nat := [0]
  /-- Each frame with its scope. -/
  frames : List (Frame × Nat) := []

namespace Board

/-- What can be done on a board. -/
inductive Action where
  | newScope
  /-- Another handle on the scope of a handle. -/
  | shareScope (handle : Nat)
  | sameScope (left right : Nat)
  | globalSet (handle : Nat) (name : Name) (value : Value)
  | globalGet (handle : Nat) (name : Name)
  | globalErase (handle : Nat) (name : Name)
  | globalHas (handle : Nat) (name : Name)
  | globalSize (handle : Nat)
  | globalDiagnostic (handle : Nat)
  | newFrame (handle : Nat) (function : Name)
  | declareGlobal (frame : Nat) (name : Name)
  | isGlobal (frame : Nat) (name : Name)
  | store (frame : Nat) (name : Name) (value : Value)
  | load (frame : Nat) (name : Name)
  | localOnly (frame : Nat) (name : Name)
  | delete (frame : Nat) (name : Name)
  | functionName (frame : Nat)

/-- What an action tells. -/
inductive Reply where
  /-- The number of something new. -/
  | number (n : Nat)
  | flag (b : Bool)
  | text (text : String)
  | found (value : Option Value)
  /-- The sizes of a frame and of its scope. -/
  | sizes (locals globals : Nat)

/-! ## Parts -/

/-- The number of the scope that a handle is on. -/
def scopeOf (board : Board) (handle : Nat) : Nat := board.handles.getD handle 0

def scope (board : Board) (number : Nat) : GlobalScope := board.scopes.getD number ∅

def setScope (board : Board) (number : Nat) (scope : GlobalScope) : Board :=
  { board with scopes := board.scopes.set number scope }

/-- A frame with the number of its scope. -/
def frame (board : Board) (number : Nat) : Frame × Nat :=
  board.frames.getD number ({ function := "" }, 0)

def setFrame (board : Board) (number : Nat) (frame : Frame) : Board :=
  { board with frames := board.frames.modify number fun (_, scope) => (frame, scope) }

/-! ## Actions -/

/-- Perform one action. -/
def step (board : Board) : Action → Reply × Board
  | .newScope =>
      (.number board.handles.length,
        { board with
          scopes := board.scopes ++ [∅], handles := board.handles ++ [board.scopes.length] })
  | .shareScope handle =>
      (.number board.handles.length,
        { board with handles := board.handles ++ [board.scopeOf handle] })
  | .sameScope left right => (.flag (board.scopeOf left = board.scopeOf right), board)
  | .globalSet handle name value =>
      let number := board.scopeOf handle
      let scope := (board.scope number).set name value
      (.number scope.size, board.setScope number scope)
  | .globalGet handle name =>
      (.found ((board.scope (board.scopeOf handle)).get? name), board)
  | .globalErase handle name =>
      let number := board.scopeOf handle
      let scope := board.scope number
      (.found (scope.get? name), board.setScope number (scope.erase name))
  | .globalHas handle name =>
      (.flag ((board.scope (board.scopeOf handle)).contains name), board)
  | .globalSize handle => (.number (board.scope (board.scopeOf handle)).size, board)
  | .globalDiagnostic handle =>
      (.text (board.scope (board.scopeOf handle)).diagnostic, board)
  | .newFrame handle function =>
      (.number board.frames.length,
        { board with frames := board.frames ++ [({ function }, board.scopeOf handle)] })
  | .declareGlobal number name =>
      let frame := (board.frame number).1.declareGlobal name
      (.flag (frame.isGlobal name), board.setFrame number frame)
  | .isGlobal number name => (.flag ((board.frame number).1.isGlobal name), board)
  | .store number name value =>
      let (frame, scopeNumber) := board.frame number
      let (frame, scope) := frame.store (board.scope scopeNumber) name value
      (.sizes frame.localCount scope.size,
        (board.setFrame number frame).setScope scopeNumber scope)
  | .load number name =>
      let (frame, scopeNumber) := board.frame number
      (.found (frame.load (board.scope scopeNumber) name), board)
  | .localOnly number name => (.found ((board.frame number).1.local? name), board)
  | .delete number name =>
      let (frame, scopeNumber) := board.frame number
      let (old, frame, scope) := frame.delete (board.scope scopeNumber) name
      (.found old, (board.setFrame number frame).setScope scopeNumber scope)
  | .functionName number => (.text (board.frame number).1.function, board)

/-- Perform actions in order. -/
def run (board : Board) : List Action → Board
  | [] => board
  | action :: rest => (board.step action).2.run rest

/-- The value of a name in a frame, or else among built-in names. -/
def loadName (board : Board) (builtins : Table Name Value) (number : Nat) (name : Name) :
    Except Error Value :=
  let (frame, scopeNumber) := board.frame number
  frame.resolve (board.scope scopeNumber) builtins name

end Board

end ScriptCore
