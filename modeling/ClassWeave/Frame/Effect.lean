/-
# ClassWeave.Frame.Effect -- what each instruction does to a frame

An `Effect` is the change an instruction makes, told without the frame it is made
to: so many values come off the operand stack and these go onto it, or a slot is
read or written, or the values on top change places.  `Instruction.effect` is the
table from instructions to effects; instructions the simulation does not follow
(subroutines, unknown opcodes) have none.
-/
import ClassWeave.Frame.Basic

set_option autoImplicit false

namespace ClassWeave

/-- The instructions that move the values on top of the stack, whatever those are. -/
inductive Shuffle
  | pop | pop2 | dup | dupX1 | dupX2 | dup2 | dup2X1 | dup2X2 | swap
deriving DecidableEq, Repr

/-- The stack afterwards, unless it holds too few values.  One wide value stands for two narrow
ones. -/
def Shuffle.apply : Shuffle → List FrameType → Option (List FrameType)
  | pop, _ :: s => some s
  | pop2, a :: s =>
    if a.isWide then some s
    else match s with
      | _ :: s => some s
      | [] => none
  | dup, a :: s => some (a :: a :: s)
  | dupX1, a :: b :: s => some (a :: b :: a :: s)
  | dupX2, a :: b :: s =>
    if b.isWide then some (a :: b :: a :: s)
    else match s with
      | c :: s => some (a :: b :: c :: a :: s)
      | [] => none
  | dup2, a :: s =>
    if a.isWide then some (a :: a :: s)
    else match s with
      | b :: s => some (a :: b :: a :: b :: s)
      | [] => none
  | dup2X1, a :: b :: s =>
    if a.isWide then some (a :: b :: a :: s)
    else match s with
      | c :: s => some (a :: b :: c :: a :: b :: s)
      | [] => none
  | dup2X2, a :: b :: s =>
    if a.isWide then
      if b.isWide then some (a :: b :: a :: s)
      else match s with
        | c :: s => some (a :: b :: c :: a :: s)
        | [] => none
    else match s with
      | c :: s =>
        if c.isWide then some (a :: b :: c :: a :: b :: s)
        else match s with
          | d :: s => some (a :: b :: c :: d :: a :: b :: s)
          | [] => none
      | [] => none
  | swap, a :: b :: s => some (b :: a :: s)
  | _, _ => none

inductive Effect
  /-- `taken` values come off the stack, then those of `pushed` go on, the first one on top. -/
  | replace (taken : Nat) (pushed : List FrameType)
  /-- A slot is pushed, as `otherwise` when nothing is known of it. -/
  | load (slot : Nat) (otherwise : FrameType)
  | store (slot : Nat)
  /-- An index and an array come off, an element of the array goes on. -/
  | element
  | shuffle (moves : Shuffle)
  /-- The arguments of a constructor and the object under construction come off. -/
  | construct (arguments : Nat) (owner : String) (pushed : List FrameType)
  /-- `taken` values come off the stack, then the instruction is refused. -/
  | refuse (taken : Nat) (cause : InstrumentError)
deriving DecidableEq

/-- The type that a four-cycle of typed opcodes works on. -/
def cycled (n : Nat) : FrameType :=
  match n % 4 with
  | 0 => .int
  | 1 => .long
  | 2 => .float
  | _ => .double

def anyObject : FrameType := .object ClassName.object

namespace Opcode

/-- How far an opcode stands behind the first of its family. -/
def index (op first : Opcode) : Nat := op.toNat - first.toNat

/-- The type of an array element, for the arrays of primitives. -/
def elementType (op : Opcode) : FrameType :=
  if op = laload then .long else if op = faload then .float
  else if op = daload then .double else .int

def converted (op : Opcode) : FrameType :=
  if op = i2l ∨ op = f2l ∨ op = d2l then .long
  else if op = i2f ∨ op = l2f ∨ op = d2f then .float
  else if op = i2d ∨ op = l2d ∨ op = f2d then .double
  else .int

def shuffle? (op : Opcode) : Option Shuffle :=
  if op = pop then some .pop
  else if op = pop2 then some .pop2
  else if op = dup then some .dup
  else if op = dupX1 then some .dupX1
  else if op = dupX2 then some .dupX2
  else if op = dup2 then some .dup2
  else if op = dup2X1 then some .dup2X1
  else if op = dup2X2 then some .dup2X2
  else if op = swap then some .swap
  else none

/-- The effect of an instruction without operands. -/
def effect? (op : Opcode) : Option Effect :=
  if op = nop then some (.replace 0 [])
  else if op = aconstNull then some (.replace 0 [.null])
  else if within op iconstM1 iconst5 then some (.replace 0 [.int])
  else if within op lconst0 lconst1 then some (.replace 0 [.long])
  else if within op fconst0 fconst2 then some (.replace 0 [.float])
  else if within op dconst0 dconst1 then some (.replace 0 [.double])
  else if within op iload0 iload3 then some (.load (index op iload0) .int)
  else if within op lload0 lload3 then some (.load (index op lload0) .long)
  else if within op fload0 fload3 then some (.load (index op fload0) .float)
  else if within op dload0 dload3 then some (.load (index op dload0) .double)
  else if within op aload0 aload3 then some (.load (index op aload0) anyObject)
  else if op = aaload then some .element
  else if within op iaload saload then some (.replace 2 [elementType op])
  else if within op istore0 astore3 then some (.store (index op istore0 % 4))
  else if within op iastore sastore then some (.replace 3 [])
  else if within op pop swap then (shuffle? op).map .shuffle
  else if within op iadd drem then some (.replace 2 [cycled (index op iadd)])
  else if within op ineg dneg then some (.replace 1 [cycled (index op ineg)])
  else if within op ishl lxor then
    some (.replace 2 [if op.toNat % 2 = 0 then .int else .long])
  else if within op i2l i2s then some (.replace 1 [converted op])
  else if within op lcmp dcmpg then some (.replace 2 [.int])
  else if within op ireturn areturn ∨ op = athrow then some (.replace 1 [])
  else if op = voidReturn then some (.replace 0 [])
  else if op = arraylength then some (.replace 1 [.int])
  else if op = monitorenter ∨ op = monitorexit then some (.replace 1 [])
  else if op = breakpoint ∨ op = impdep1 ∨ op = impdep2 then some (.replace 0 [])
  else none

end Opcode

/-- The descriptor of an array of the primitive type with a code. -/
def primitiveArray? : Nat → Option String
  | 4 => some "[Z"
  | 5 => some "[C"
  | 6 => some "[F"
  | 7 => some "[D"
  | 8 => some "[B"
  | 9 => some "[S"
  | 10 => some "[I"
  | 11 => some "[J"
  | _ => none

/-- The type of an array whose elements are of the named class or array type. -/
def arrayOf (name : String) : FrameType :=
  .object (if name.toList.head? = some '[' then "[" ++ name else "[L" ++ name ++ ";")

def Loadable.frameType : Loadable → Except InstrumentError FrameType
  | int _ => .ok .int
  | float _ => .ok .float
  | long _ => .ok .long
  | double _ => .ok .double
  | string _ => .ok (.object "java/lang/String")
  | «class» _ => .ok (.object "java/lang/Class")
  | methodType _ => .ok (.object "java/lang/invoke/MethodType")
  | methodHandle _ => .ok (.object "java/lang/invoke/MethodHandle")
  | dynamic _ descriptor => FrameType.described descriptor

/-- What a call leaves on the stack. -/
def MethodType.pushed (type : MethodType) : Except InstrumentError (List FrameType) :=
  if type.result = .void then .ok [] else (FrameType.ofValue type.result).map ([·])

/-- The effect of an instruction that stands at `position`. -/
def Instruction.effect (position : Label) : Instruction → Except InstrumentError Effect
  | simple op =>
    match op.effect? with
    | some effect => .ok effect
    | none => .error (.unsupportedInstruction op)
  | int op operand =>
    if op = Opcode.newarray then
      let code := operand.toUInt32.toUInt8.toNat
      match primitiveArray? code with
      | some descriptor => .ok (.replace 1 [.object descriptor])
      | none => .ok (.refuse 1 (.invalidType (.arrayCode code)))
    else .ok (.replace 0 [.int])
  | var op slot =>
    if op = Opcode.iload then .ok (.load slot.toNat .int)
    else if op = Opcode.lload then .ok (.load slot.toNat .long)
    else if op = Opcode.fload then .ok (.load slot.toNat .float)
    else if op = Opcode.dload then .ok (.load slot.toNat .double)
    else if op = Opcode.aload then .ok (.load slot.toNat anyObject)
    else if Opcode.within op Opcode.istore Opcode.astore then .ok (.store slot.toNat)
    else .error (.unsupportedInstruction op)
  | type op name =>
    if op = Opcode.new then .ok (.replace 0 [.uninitialized position])
    else if op = Opcode.anewarray then .ok (.replace 1 [arrayOf name])
    else if op = Opcode.checkcast then .ok (.replace 1 [.object name])
    else if op = Opcode.instanceof then .ok (.replace 1 [.int])
    else .error (.unsupportedInstruction op)
  | field op target => do
    let type ← FrameType.described target.descriptor
    if op = Opcode.getstatic then return .replace 0 [type]
    else if op = Opcode.putstatic then return .replace 1 []
    else if op = Opcode.getfield then return .replace 1 [type]
    else return .replace 2 []
  | method op target _ => do
    let type ← MethodType.parse target.descriptor
    let pushed ← type.pushed
    if op = Opcode.invokestatic then return .replace type.params.length pushed
    else if target.name = constructorName then
      return .construct type.params.length target.owner pushed
    else return .replace (type.params.length + 1) pushed
  | invokeDynamic _ _ descriptor => do
    let type ← MethodType.parse descriptor
    let pushed ← type.pushed
    return .replace type.params.length pushed
  | jump op _ =>
    if Opcode.within op Opcode.ifeq Opcode.ifle ∨ op = Opcode.ifnull ∨ op = Opcode.ifnonnull then
      .ok (.replace 1 [])
    else if Opcode.within op Opcode.ifIcmpeq Opcode.ifAcmpne then .ok (.replace 2 [])
    else if op = Opcode.goto ∨ op = Opcode.gotoW then .ok (.replace 0 [])
    else .error (.unsupportedInstruction op)
  | ldc _ constant => do return .replace 0 [← constant.frameType]
  | iinc _ _ => .ok (.replace 0 [])
  | tableSwitch .. | lookupSwitch .. => .ok (.replace 1 [])
  | multiNewArray name dimensions => .ok (.replace dimensions.toNat [.object name])

end ClassWeave
