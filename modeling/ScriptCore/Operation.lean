import ScriptCore.Operation.Contents
import ScriptCore.Operation.Errors
import ScriptCore.Operation.Make
import ScriptCore.Operation.Names
import ScriptCore.Operation.Types

/-!
# Operations

An operation sees the whole machine and the current frame.  It can change the
frame and the world, but neither the call stack nor the errors being handled;
when it fails it changes nothing.
-/

namespace ScriptCore

namespace Operation

def perform (machine : Machine) (frame : Frame) (op : Operation) (operands : List Value) :
    Except Error (Value × Frame × World) :=
  let inFrame (result : Except Error (Value × World)) : Except Error (Value × Frame × World) :=
    result.map fun (value, world) => (value, frame, world)
  match op with
  | attributes op => inFrame (op.perform machine.world operands)
  | make op => inFrame (op.perform machine.world operands)
  | names op => op.perform frame machine.world operands
  | errors op => inFrame (op.perform machine operands)
  | types op => inFrame (op.perform machine.world operands)
  | values op => inFrame (op.perform machine.world operands)

end Operation

end ScriptCore
