/-
# ClassWeave.Code.Decode -- from a code array to symbolic code

An instruction is read from the bytes at its offset: its opcode, then operands of a
length the opcode fixes, pool indexes replaced by what they stand for and distances
by the labels of the offsets they lead to.  A target has to lie inside the code.

`decode` reads instruction after instruction until the code is used up, and answers
each with its offset.
-/
import ClassWeave.Pool.Entry

set_option autoImplicit false

namespace ClassWeave

namespace Decode

open Opcode

/-- The label at a distance from the instruction at `origin`, in code of a given length. -/
def target (length origin : Nat) (distance : Int32) : Except ReadError Label :=
  let offset : Int := origin + distance.toInt
  if 0 ≤ offset ∧ offset < length then .ok ⟨offset.toNat⟩
  else .error (.invalidBranchTarget origin offset)

def near (length origin : Nat) : Reader Label := do
  let distance ← Reader.i2
  Reader.lift (target length origin distance.toInt32)

def far (length origin : Nat) : Reader Label := do
  let distance ← Reader.i4
  Reader.lift (target length origin distance)

/-- The filling between the opcode of a switch and its operands. -/
def padding (origin : Nat) : Reader Bytes := Reader.bytes ((4 - (origin + 1) % 4) % 4)

def tableSwitch (length origin : Nat) : Reader Instruction := do
  let _ ← padding origin
  let default ← far length origin
  let low ← Reader.i4
  let high ← Reader.i4
  let targets ← Reader.times (far length origin) (high.toInt - low.toInt + 1).toNat []
  return .tableSwitch low high default targets

def switchPair (length origin : Nat) : Reader (Int32 × Label) := do
  let key ← Reader.i4
  let target ← far length origin
  return (key, target)

def lookupSwitch (length origin : Nat) : Reader Instruction := do
  let _ ← padding origin
  let default ← far length origin
  let count ← Reader.i4
  let pairs ← Reader.times (switchPair length origin) count.toInt.toNat []
  return .lookupSwitch default pairs

/-- Loads, stores and returns from subroutines, which name a slot. -/
def namesSlot (op : Opcode) : Bool :=
  within op iload aload || within op istore astore || op == ret

/-- The instruction after a `wide` opcode. -/
def widened : Reader Instruction := do
  let origin ← Reader.offset
  let op ← Reader.u1
  if namesSlot op then return .var op (← Reader.u2)
  else if op = iinc then
    let slot ← Reader.u2
    return .iinc slot (← Reader.i2)
  else Reader.fail (.invalidOpcode op origin)

/-- Opcodes that stand alone. -/
def standsAlone (op : Opcode) : Bool :=
  within op nop dconst1 || within op iload0 saload || within op istore0 lxor
    || within op i2l dcmpg || isReturn op || op == arraylength || op == athrow
    || op == monitorenter || op == monitorexit || op == breakpoint || op == impdep1
    || op == impdep2

/-- The rest of an instruction whose opcode `op` stood at `origin`. -/
def operands (entries : Entries) (length origin : Nat) (op : Opcode) : Reader Instruction :=
  if standsAlone op then return .simple op
  else if op = bipush then do return .int op (← Reader.i1).toInt32
  else if op = sipush then do return .int op (← Reader.i2).toInt32
  else if op = newarray then do return .int op (← Reader.u1).toUInt32.toInt32
  else if op = ldc then do
    let place ← Reader.u1
    return .ldc op (← Reader.lift (entries.loadable place.toUInt16))
  else if op = ldcW ∨ op = ldc2W then do
    let place ← Reader.u2
    return .ldc op (← Reader.lift (entries.loadable place))
  else if namesSlot op then do return .var op (← Reader.u1).toUInt16
  else if op = iinc then do
    let slot ← Reader.u1
    return .iinc slot.toUInt16 (← Reader.i1).toInt16
  else if within op ifeq jsr ∨ op = ifnull ∨ op = ifnonnull then do
    return .jump op (← near length origin)
  else if op = gotoW ∨ op = jsrW then do return .jump op (← far length origin)
  else if op = tableswitch then tableSwitch length origin
  else if op = lookupswitch then lookupSwitch length origin
  else if within op getstatic putfield then do
    let place ← Reader.u2
    return .field op (← Reader.lift (entries.field place))
  else if within op invokevirtual invokestatic then do
    let place ← Reader.u2
    let (target, isInterface) ← Reader.lift (entries.method place)
    return .method op target isInterface
  else if op = invokeinterface then do
    let place ← Reader.u2
    let (target, _) ← Reader.lift (entries.method place)
    let _ ← Reader.bytes 2
    return .method op target true
  else if op = invokedynamic then do
    let place ← Reader.u2
    let (bootstrap, name, descriptor) ← Reader.lift (entries.invokeDynamic place)
    let _ ← Reader.bytes 2
    return .invokeDynamic bootstrap name descriptor
  else if op = new ∨ op = anewarray ∨ op = checkcast ∨ op = instanceof then do
    let place ← Reader.u2
    return .type op (← Reader.lift (entries.className place))
  else if op = wide then widened
  else if op = multianewarray then do
    let place ← Reader.u2
    let name ← Reader.lift (entries.className place)
    return .multiNewArray name (← Reader.u1)
  else Reader.fail (.invalidOpcode op origin)

/-- One instruction and its offset. -/
def instruction (entries : Entries) (length : Nat) : Reader (Nat × Instruction) := do
  let origin ← Reader.offset
  let op ← Reader.u1
  return (origin, ← operands entries length origin op)

/-- Instructions up to the end, at most `fuel` of them, behind those of `found`, which holds the
last one first. -/
def upToEnd (entries : Entries) (length : Nat) :
    Nat → List (Nat × Instruction) → Cursor → Except ReadError (List (Nat × Instruction))
  | 0, found, _ => .ok found.reverse
  | fuel + 1, found, cursor =>
    if cursor.rest.isEmpty then .ok found.reverse
    else match instruction entries length cursor with
      | .ok (item, cursor) => upToEnd entries length fuel (item :: found) cursor
      | .error cause => .error cause

end Decode

/-- The instructions of a code array.  Each takes at least one byte, so there are no more of them
than bytes. -/
def decode (entries : Entries) (code : Bytes) : Except ReadError (List (Nat × Instruction)) :=
  Decode.upToEnd entries code.length (code.length + 1) [] (Cursor.start code)

end ClassWeave
