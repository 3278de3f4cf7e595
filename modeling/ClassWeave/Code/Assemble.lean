/-
# ClassWeave.Code.Assemble -- from symbolic code to a code array

Assembling has two passes.  The first lays the nodes out: every instruction becomes
pieces of known size, its operands interned and its targets left open, and every
label gets the offset it stands at, the last one if it stands at several.  The second
closes the open targets.  A target is written as its distance from the opcode of the
instruction, in two bytes or four.

So the offset of an instruction is the size of everything before it, and nothing
but the distances depends on what comes after.
-/
import ClassWeave.Descriptor
import ClassWeave.Pool.Intern

set_option autoImplicit false

namespace ClassWeave

/-- Part of an instruction: bytes, or room for the distance to a target. -/
inductive Piece
  | bytes (given : Bytes)
  | near (target : Label)
  | far (target : Label)
deriving DecidableEq

def Piece.size : Piece → Nat
  | bytes given => given.length
  | near _ => 2
  | far _ => 4

/-- Zero bytes up to the next multiple of four, after an opcode at `offset`. -/
def switchPadding (offset : Nat) : Bytes := List.replicate ((4 - (offset + 1) % 4) % 4) 0

namespace Instruction

/-- The operand of an instruction that carries a number in its code. -/
def operandBytes (op : Opcode) (operand : Int32) : Bytes :=
  if op = Opcode.sipush then Bytes.u2 operand.toUInt32.toUInt16
  else [operand.toUInt32.toUInt8]

def slotBytes (op : Opcode) (slot : UInt16) : Bytes :=
  if 0xFF < slot then Opcode.wide :: op :: Bytes.u2 slot else [op, slot.toUInt8]

def iincBytes (slot : UInt16) (increment : Int16) : Bytes :=
  if 0xFF < slot ∨ increment < -128 ∨ 127 < increment then
    Opcode.wide :: Opcode.iinc :: (Bytes.u2 slot ++ Bytes.i2 increment)
  else [Opcode.iinc, slot.toUInt8, increment.toUInt16.toUInt8]

/-- A constant load in the shortest form that fits the place of the constant. -/
def ldcBytes (isWide : Bool) (place : UInt16) : Bytes :=
  if isWide then Opcode.ldc2W :: Bytes.u2 place
  else if place ≤ 0xFF then [Opcode.ldc, place.toUInt8]
  else Opcode.ldcW :: Bytes.u2 place

def isFarJump (op : Opcode) : Bool := op == Opcode.gotoW || op == Opcode.jsrW

/-- Two bytes after an interface call: the slots of its arguments, and zero. -/
def interfaceTail (op : Opcode) (descriptor : String) : Except WriteError Bytes :=
  if op = Opcode.invokeinterface then
    match MethodType.parse? descriptor with
    | some signature => .ok [UInt8.ofNat (signature.argumentSlots false), 0]
    | none => .error (.invalidDescriptor descriptor)
  else .ok []

/-- The pieces of an instruction whose opcode stands at `offset`. -/
def pieces (offset : Nat) : Instruction → Interning (List Piece)
  | simple op => return [.bytes [op]]
  | int op operand => return [.bytes (op :: operandBytes op operand)]
  | var op slot => return [.bytes (slotBytes op slot)]
  | type op name => do return [.bytes (op :: Bytes.u2 (← Interning.className name))]
  | field op target => do return [.bytes (op :: Bytes.u2 (← Interning.field target))]
  | method op target isInterface => do
    let place ← Interning.method target isInterface
    let tail ← ExceptT.mk (pure (interfaceTail op target.descriptor))
    return [.bytes (op :: (Bytes.u2 place ++ tail))]
  | invokeDynamic bootstrap name descriptor => do
    let place ← Interning.invokeDynamic bootstrap name descriptor
    return [.bytes (Opcode.invokedynamic :: (Bytes.u2 place ++ [0, 0]))]
  | jump op target =>
    return [.bytes [op], if isFarJump op then .far target else .near target]
  | ldc _ constant => do
    return [.bytes (ldcBytes constant.isWide (← Interning.loadable constant))]
  | iinc slot increment => return [.bytes (iincBytes slot increment)]
  | tableSwitch low high default targets =>
    return .bytes (Opcode.tableswitch :: switchPadding offset) :: .far default
      :: .bytes (Bytes.i4 low ++ Bytes.i4 high) :: targets.map .far
  | lookupSwitch default pairs =>
    -- Keys rise in a class file, in whatever order the instruction lists them.
    let sorted := pairs.mergeSort fun a b => decide (a.1 ≤ b.1)
    return .bytes (Opcode.lookupswitch :: switchPadding offset) :: .far default
      :: .bytes (Bytes.u4 (UInt32.ofNat pairs.length))
      :: sorted.flatMap fun (key, target) => [.bytes (Bytes.i4 key), .far target]
  | multiNewArray name dimensions => do
    let place ← Interning.className name
    return [.bytes (Opcode.multianewarray :: (Bytes.u2 place ++ [dimensions]))]

end Instruction

/-- Code laid out so far. -/
structure Layout where
  size : Nat
  labels : Std.TreeMap Label Nat
  /-- The last line comes first. -/
  lines : List (Label × UInt16)
  /-- The offset of each instruction and its pieces, the last instruction first. -/
  placed : List (Nat × List Piece)

namespace Layout

def empty : Layout := ⟨0, ∅, [], []⟩

def sizeOf (pieces : List Piece) : Nat := pieces.foldr (·.size + ·) 0

def add (layout : Layout) : Node → Interning Layout
  | .label label => return { layout with labels := layout.labels.insert label layout.size }
  | .line number start => return { layout with lines := (start, number) :: layout.lines }
  | .insn instruction => do
    let pieces ← instruction.pieces layout.size
    return { layout with
      size := layout.size + sizeOf pieces
      placed := (layout.size, pieces) :: layout.placed }

end Layout

/-- Code with every label at its offset. -/
structure AssembledCode where
  code : Bytes
  labels : Std.TreeMap Label Nat
  lines : List (Label × UInt16)

namespace AssembledCode

def place (labels : Std.TreeMap Label Nat) (label : Label) : Except WriteError Nat :=
  match labels[label]? with
  | some offset => .ok offset
  | none => .error (.unresolvedLabel label)

def offsetOf (assembled : AssembledCode) (label : Label) : Except WriteError Nat :=
  place assembled.labels label

/-- The bytes of a piece of the instruction at `origin`. -/
def close (labels : Std.TreeMap Label Nat) (origin : Nat) : Piece → Except WriteError Bytes
  | .bytes given => .ok given
  | .near target => do
    let offset ← place labels target
    let distance : Int := (offset : Int) - origin
    if -0x8000 ≤ distance ∧ distance ≤ 0x7FFF then return Bytes.i2 (Int16.ofInt distance)
    else throw (.branchOutOfRange origin offset)
  | .far target => do
    let offset ← place labels target
    return Bytes.i4 (Int32.ofInt ((offset : Int) - origin))

/-- The bytes of the instruction at `origin`. -/
def closeAll (labels : Std.TreeMap Label Nat) (origin : Nat) (pieces : List Piece) :
    Except WriteError Bytes := do
  return (← pieces.mapM (close labels origin)).flatten

end AssembledCode

/-- The bytes of laid out instructions, first to last. -/
def Layout.code (layout : Layout) : Except WriteError Bytes := do
  let parts ← layout.placed.reverse.mapM fun (origin, pieces) =>
    AssembledCode.closeAll layout.labels origin pieces
  return parts.flatten

def assemble (nodes : List Node) : Interning AssembledCode := do
  let layout ← nodes.foldlM Layout.add Layout.empty
  if 0xFFFF < layout.size then throw (.codeTooLarge layout.size)
  let code ← ExceptT.mk (pure layout.code)
  return ⟨code, layout.labels, layout.lines.reverse⟩

end ClassWeave
