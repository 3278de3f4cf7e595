/-
# ClassWeave.Event -- a method body told in order

A body is told as events: its sizes, its exception ranges, then every label, line,
frame and instruction in code order, then its variables and its sizes again.  What
reads a class file tells events, what collects or rewrites a method takes them.
An instruction that loads a constant is told in its normal form.

Frames told here keep locals in compact form and the operand stack bottom first, as
stack maps do.
-/
import ClassWeave.Frame.Type

set_option autoImplicit false

namespace ClassWeave

/-- Exceptions of a class, or of any, go from a range of code to a handler. -/
structure TryBlock where
  start : Label
  stop : Label
  handler : Label
  catchType : Option String
deriving DecidableEq, Repr

/-- A local variable of the source program, and where it is in scope. -/
structure Variable where
  name : String
  descriptor : String
  signature : Option String
  start : Label
  stop : Label
  slot : UInt16
deriving DecidableEq, Repr

/-- A frame and the label of the place it holds at. -/
structure PinnedFrame where
  label : Label
  locals : List FrameType
  stack : List FrameType
deriving DecidableEq, Repr

inductive MethodEvent
  | sizes (maxStack maxLocals : UInt16)
  | frame (locals stack : List FrameType)
  | label (label : Label)
  | line (number : UInt16) (start : Label)
  | tryBlock (block : TryBlock)
  | variable (declared : Variable)
  | insn (instruction : Instruction)
  | maxs (maxStack maxLocals : UInt16)
  | finish
deriving DecidableEq

namespace MethodEvent

/-- The event of an instruction. -/
def ofInstruction (instruction : Instruction) : MethodEvent := insn instruction.normal

def ofNode : Node → MethodEvent
  | .label place => label place
  | .line number start => line number start
  | .insn instruction => ofInstruction instruction

end MethodEvent

end ClassWeave
