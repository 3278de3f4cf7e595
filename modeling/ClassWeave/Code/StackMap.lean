/-
# ClassWeave.Code.StackMap -- the table of frames that a verifier reads

A stack map gives frames at rising offsets, each by what differs from the one before
it: `StackMapEntry.readTable` reads the forms, `expand` works out whole frames, and
`encode` writes every frame in the form that depends on no other.

The first entry stands at its delta, every other one at the offset after the one
before it plus its delta; so no two entries share an offset.
-/
import ClassWeave.ClassFile.Attribute
import ClassWeave.Code.Assemble
import ClassWeave.Event

set_option autoImplicit false

namespace ClassWeave

/-- The type of a slot as a stack map stores it. -/
inductive SlotEntry
  | top
  | int
  | float
  | double
  | long
  | null
  | uninitializedThis
  | object (index : UInt16)
  | uninitialized (offset : UInt16)
deriving DecidableEq, Repr

inductive StackMapEntry
  | same (delta : UInt16)
  | sameOne (delta : UInt16) (type : SlotEntry)
  | sameOneExtended (delta : UInt16) (type : SlotEntry)
  | chop (delta : UInt16) (count : UInt8)
  | sameExtended (delta : UInt16)
  | append (delta : UInt16) (types : List SlotEntry)
  | full (delta : UInt16) (locals stack : List SlotEntry)
deriving DecidableEq, Repr

namespace SlotEntry

def read : Reader SlotEntry := do
  let tag ← Reader.u1
  if tag = 0 then return top
  else if tag = 1 then return int
  else if tag = 2 then return float
  else if tag = 3 then return double
  else if tag = 4 then return long
  else if tag = 5 then return null
  else if tag = 6 then return uninitializedThis
  else if tag = 7 then return object (← Reader.u2)
  else if tag = 8 then return uninitialized (← Reader.u2)
  else Reader.fail (.invalidAttribute Attribute.stackMapTable)

/-- The type with its pool index followed and its offset made a label. -/
def resolve (entries : Entries) : SlotEntry → Except ReadError FrameType
  | top => .ok .top
  | int => .ok .int
  | float => .ok .float
  | double => .ok .double
  | long => .ok .long
  | null => .ok .null
  | uninitializedThis => .ok .uninitializedThis
  | object index => do return .object (← entries.className index)
  | uninitialized offset => .ok (.uninitialized ⟨offset.toNat⟩)

end SlotEntry

namespace StackMapEntry

def delta : StackMapEntry → UInt16
  | same delta | sameOne delta _ | sameOneExtended delta _ | chop delta _ | sameExtended delta
  | append delta _ | full delta _ _ => delta

def read : Reader StackMapEntry := do
  let tag ← Reader.u1
  if tag ≤ 63 then return same tag.toUInt16
  else if tag ≤ 127 then return sameOne (tag - 64).toUInt16 (← SlotEntry.read)
  else if tag < 247 then Reader.fail (.invalidAttribute Attribute.stackMapTable)
  else
    let delta ← Reader.u2
    if tag = 247 then return sameOneExtended delta (← SlotEntry.read)
    else if tag ≤ 250 then return chop delta (251 - tag)
    else if tag = 251 then return sameExtended delta
    else if tag ≤ 254 then
      return append delta (← Reader.times SlotEntry.read (tag - 251).toNat [])
    else
      let locals ← Reader.table SlotEntry.read
      let stack ← Reader.table SlotEntry.read
      return full delta locals stack

def readTable : Reader (List StackMapEntry) := Reader.table read

/-- The locals and the stack at an entry, given the locals at the entry before it. -/
def apply (entries : Entries) (locals : List FrameType) :
    StackMapEntry → Except ReadError (List FrameType × List FrameType)
  | same _ | sameExtended _ => .ok (locals, [])
  | sameOne _ type | sameOneExtended _ type => do
    return (locals, [← type.resolve entries])
  | chop _ count => .ok (locals.take (locals.length - count.toNat), [])
  | append _ types => do
    return (locals ++ (← types.mapM (SlotEntry.resolve entries)), [])
  | full _ locals stack => do
    let locals ← locals.mapM (SlotEntry.resolve entries)
    let stack ← stack.mapM (SlotEntry.resolve entries)
    return (locals, stack)

/-- Whole frames from `next` on, behind those of `found`, which holds the last one first. -/
def expandFrom (entries : Entries) (next : Nat) (locals : List FrameType)
    (found : List PinnedFrame) : List StackMapEntry → Except ReadError (List PinnedFrame)
  | [] => .ok found.reverse
  | entry :: rest => do
    let offset := next + entry.delta.toNat
    let (locals, stack) ← entry.apply entries locals
    expandFrom entries (offset + 1) locals (⟨⟨offset⟩, locals, stack⟩ :: found) rest

/-- The frames of a table, each at the label of its offset, given the locals on entry to the
method in compact form. -/
def expand (entries : Entries) (locals : List FrameType) (table : List StackMapEntry) :
    Except ReadError (List PinnedFrame) :=
  expandFrom entries 0 locals [] table

end StackMapEntry

/-- The type of a slot, as a stack map stores it. -/
def FrameType.encode (assembled : AssembledCode) : FrameType → Interning Bytes
  | top => return [0]
  | int => return [1]
  | float => return [2]
  | double => return [3]
  | long => return [4]
  | null => return [5]
  | uninitializedThis => return [6]
  | object name => do return 7 :: Bytes.u2 (← Interning.className name)
  | uninitialized site => do
    let offset ← ExceptT.mk (pure (assembled.offsetOf site))
    return 8 :: Bytes.u2 (UInt16.ofNat offset)

namespace StackMap

/-- Each frame with the offset it holds at; frames at the end of the code hold nowhere. -/
def placed (assembled : AssembledCode) (length : Nat) (frames : List PinnedFrame) :
    Except WriteError (List (Nat × PinnedFrame)) := do
  let offsets ← frames.mapM fun frame => do return (← assembled.offsetOf frame.label, frame)
  return offsets.filter fun (offset, _) => offset < length

/-- Of neighbours at one offset only the last. -/
def lastOfEach : List (Nat × PinnedFrame) → List (Nat × PinnedFrame)
  | a :: b :: rest => if a.1 = b.1 then lastOfEach (b :: rest) else a :: lastOfEach (b :: rest)
  | frames => frames

def encodeTypes (assembled : AssembledCode) (types : List FrameType) : Interning Bytes := do
  return Bytes.count types.length ++ (← types.mapM (FrameType.encode assembled)).flatten

/-- A frame in full, `delta` after the offset where it could stand at the earliest. -/
def encodeFrame (assembled : AssembledCode) (delta : Nat) (frame : PinnedFrame) :
    Interning Bytes := do
  let locals ← encodeTypes assembled frame.locals
  let stack ← encodeTypes assembled frame.stack
  return 255 :: (Bytes.u2 (UInt16.ofNat delta) ++ locals ++ stack)

/-- Frames at rising offsets from `next` on, behind those of `found`, which holds the last one
first. -/
def encodeFrom (assembled : AssembledCode) (next : Nat) (found : List Bytes) :
    List (Nat × PinnedFrame) → Interning Bytes
  | [] => return found.reverse.flatten
  | (offset, frame) :: rest => do
    let bytes ← encodeFrame assembled (offset - next) frame
    encodeFrom assembled (offset + 1) (bytes :: found) rest

/-- The payload of the table, if any frame is left to go into it.  Of frames at one offset the one
given last counts. -/
def encode (assembled : AssembledCode) (frames : List PinnedFrame) :
    Interning (Option Bytes) := do
  let placed ← ExceptT.mk (pure (placed assembled assembled.code.length frames))
  -- The sort is stable, so the last frame given for an offset is the last there.
  let kept := lastOfEach (placed.mergeSort fun a b => decide (a.1 ≤ b.1))
  if kept.isEmpty then return none
  return some (Bytes.count kept.length ++ (← encodeFrom assembled 0 [] kept))

end StackMap

end ClassWeave
