/-
# ClassWeave.Frame.Basic -- what the verifier knows at one point of a method

A frame types the local slots, in slot form, and the values on the operand stack,
the top of the stack first.  Slots past the end of `locals` hold nothing, which is
`FrameType.top`.

`Frame.initial` is the frame on entry to a method; `store` and `load` reach one
slot.  A store of a wide value also takes the slot above it, and a store over the
upper half of a wide value leaves nothing of that value.
-/
import ClassWeave.Descriptor
import ClassWeave.Error

set_option autoImplicit false

namespace ClassWeave

namespace FrameType

def ofValue : ValueType → Except InstrumentError FrameType
  | .boolean | .byte | .char | .short | .int => .ok int
  | .float => .ok float
  | .long => .ok long
  | .double => .ok double
  | .object name => .ok (object name)
  | .array descriptor => .ok (object descriptor)
  | .null => .ok null
  | .void => .error (.invalidType .voidValue)

/-- Slots that values take together. -/
def slotsOf (types : List FrameType) : Nat := types.foldr (·.slots + ·) 0

/-- The slots of a value, the lower one first. -/
def spread (type : FrameType) : List FrameType := if type.isWide then [type, top] else [type]

/-- The type that a value of the described type has on the stack. -/
def described (descriptor : String) : Except InstrumentError FrameType :=
  match ValueType.parse? descriptor with
  | some type => ofValue type
  | none => .error (.read (.invalidDescriptor descriptor))

end FrameType

def MethodType.parse (descriptor : String) : Except InstrumentError MethodType :=
  match MethodType.parse? descriptor with
  | some type => .ok type
  | none => .error (.read (.invalidDescriptor descriptor))

structure Frame where
  locals : List FrameType
  /-- The top of the stack comes first. -/
  stack : List FrameType
deriving DecidableEq, Repr

namespace Frame

def empty : Frame := ⟨[], []⟩

/-- The receiver of a method on entry: an object under construction in a constructor. -/
def receiver (className methodName : String) (isStatic : Bool) : List FrameType :=
  if isStatic then []
  else if methodName = constructorName then [.uninitializedThis]
  else [.object className]

def initial (className methodName descriptor : String) (isStatic : Bool) :
    Except InstrumentError Frame := do
  let type ← MethodType.parse descriptor
  let params ← type.params.mapM FrameType.ofValue
  return ⟨receiver className methodName isStatic ++ params.flatMap FrameType.spread, []⟩

def stackSlots (frame : Frame) : Nat := FrameType.slotsOf frame.stack

def load (frame : Frame) (slot : Nat) : FrameType := (frame.locals[slot]?).getD .top

/-- At least `size` slots, the new ones empty. -/
def padded (locals : List FrameType) (size : Nat) : List FrameType :=
  let missing := size - locals.length
  if missing = 0 then locals else locals ++ List.replicate missing .top

/-- Without the wide value, if any, whose upper half `slot` is. -/
def released (locals : List FrameType) : Nat → List FrameType
  | 0 => locals
  | below + 1 => if ((locals[below]?).getD .top).isWide then locals.set below .top else locals

def store (frame : Frame) (slot : Nat) (type : FrameType) : Frame :=
  let locals := released (padded frame.locals (slot + type.slots)) slot
  let locals := locals.set slot type
  { frame with locals := if type.isWide then locals.set (slot + 1) .top else locals }

/-- Every copy of the object under construction is an instance of `owner` from now on. -/
def construct (frame : Frame) (receiver : FrameType) (owner : String) : Frame :=
  let built (type : FrameType) := if type = receiver then .object owner else type
  ⟨frame.locals.map built, frame.stack.map built⟩

end Frame

end ClassWeave
