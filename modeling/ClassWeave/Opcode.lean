/-
# ClassWeave.Opcode -- the instruction bytes of the virtual machine

An opcode is a byte.  Code arrays hold bytes that no instruction uses, and a
probe may write any byte it likes, so the byte itself is the representation and
the mnemonics below are names for particular values.  Families of consecutive
opcodes (`iload_0` to `aload_3`, the conversions, the comparisons) are tested as
ranges.

`isTerminal` names the instructions that control never falls out of, `endsFlow`
the same without `ret`, which returns from a subroutine of the same method.
-/

set_option autoImplicit false

namespace ClassWeave

abbrev Opcode := UInt8

namespace Opcode

abbrev nop : Opcode := 0x00
abbrev aconstNull : Opcode := 0x01
abbrev iconstM1 : Opcode := 0x02
abbrev iconst0 : Opcode := 0x03
abbrev iconst5 : Opcode := 0x08
abbrev lconst0 : Opcode := 0x09
abbrev lconst1 : Opcode := 0x0A
abbrev fconst0 : Opcode := 0x0B
abbrev fconst2 : Opcode := 0x0D
abbrev dconst0 : Opcode := 0x0E
abbrev dconst1 : Opcode := 0x0F
abbrev bipush : Opcode := 0x10
abbrev sipush : Opcode := 0x11
abbrev ldc : Opcode := 0x12
abbrev ldcW : Opcode := 0x13
abbrev ldc2W : Opcode := 0x14
abbrev iload : Opcode := 0x15
abbrev lload : Opcode := 0x16
abbrev fload : Opcode := 0x17
abbrev dload : Opcode := 0x18
abbrev aload : Opcode := 0x19
abbrev iload0 : Opcode := 0x1A
abbrev iload3 : Opcode := 0x1D
abbrev lload0 : Opcode := 0x1E
abbrev lload3 : Opcode := 0x21
abbrev fload0 : Opcode := 0x22
abbrev fload3 : Opcode := 0x25
abbrev dload0 : Opcode := 0x26
abbrev dload3 : Opcode := 0x29
abbrev aload0 : Opcode := 0x2A
abbrev aload3 : Opcode := 0x2D
abbrev iaload : Opcode := 0x2E
abbrev laload : Opcode := 0x2F
abbrev faload : Opcode := 0x30
abbrev daload : Opcode := 0x31
abbrev aaload : Opcode := 0x32
abbrev saload : Opcode := 0x35
abbrev istore : Opcode := 0x36
abbrev lstore : Opcode := 0x37
abbrev fstore : Opcode := 0x38
abbrev dstore : Opcode := 0x39
abbrev astore : Opcode := 0x3A
abbrev istore0 : Opcode := 0x3B
abbrev lstore0 : Opcode := 0x3F
abbrev fstore0 : Opcode := 0x43
abbrev dstore0 : Opcode := 0x47
abbrev astore0 : Opcode := 0x4B
abbrev astore3 : Opcode := 0x4E
abbrev iastore : Opcode := 0x4F
abbrev sastore : Opcode := 0x56
abbrev pop : Opcode := 0x57
abbrev pop2 : Opcode := 0x58
abbrev dup : Opcode := 0x59
abbrev dupX1 : Opcode := 0x5A
abbrev dupX2 : Opcode := 0x5B
abbrev dup2 : Opcode := 0x5C
abbrev dup2X1 : Opcode := 0x5D
abbrev dup2X2 : Opcode := 0x5E
abbrev swap : Opcode := 0x5F
abbrev iadd : Opcode := 0x60
abbrev drem : Opcode := 0x73
abbrev ineg : Opcode := 0x74
abbrev dneg : Opcode := 0x77
abbrev ishl : Opcode := 0x78
abbrev lxor : Opcode := 0x83
abbrev iinc : Opcode := 0x84
abbrev i2l : Opcode := 0x85
abbrev i2f : Opcode := 0x86
abbrev i2d : Opcode := 0x87
abbrev l2f : Opcode := 0x89
abbrev l2d : Opcode := 0x8A
abbrev f2l : Opcode := 0x8C
abbrev f2d : Opcode := 0x8D
abbrev d2l : Opcode := 0x8F
abbrev d2f : Opcode := 0x90
abbrev i2s : Opcode := 0x93
abbrev lcmp : Opcode := 0x94
abbrev dcmpg : Opcode := 0x98
abbrev ifeq : Opcode := 0x99
abbrev ifle : Opcode := 0x9E
abbrev ifIcmpeq : Opcode := 0x9F
abbrev ifAcmpne : Opcode := 0xA6
abbrev goto : Opcode := 0xA7
abbrev jsr : Opcode := 0xA8
abbrev ret : Opcode := 0xA9
abbrev tableswitch : Opcode := 0xAA
abbrev lookupswitch : Opcode := 0xAB
abbrev ireturn : Opcode := 0xAC
abbrev areturn : Opcode := 0xB0
abbrev voidReturn : Opcode := 0xB1
abbrev getstatic : Opcode := 0xB2
abbrev putstatic : Opcode := 0xB3
abbrev getfield : Opcode := 0xB4
abbrev putfield : Opcode := 0xB5
abbrev invokevirtual : Opcode := 0xB6
abbrev invokespecial : Opcode := 0xB7
abbrev invokestatic : Opcode := 0xB8
abbrev invokeinterface : Opcode := 0xB9
abbrev invokedynamic : Opcode := 0xBA
abbrev new : Opcode := 0xBB
abbrev newarray : Opcode := 0xBC
abbrev anewarray : Opcode := 0xBD
abbrev arraylength : Opcode := 0xBE
abbrev athrow : Opcode := 0xBF
abbrev checkcast : Opcode := 0xC0
abbrev instanceof : Opcode := 0xC1
abbrev monitorenter : Opcode := 0xC2
abbrev monitorexit : Opcode := 0xC3
abbrev wide : Opcode := 0xC4
abbrev multianewarray : Opcode := 0xC5
abbrev ifnull : Opcode := 0xC6
abbrev ifnonnull : Opcode := 0xC7
abbrev gotoW : Opcode := 0xC8
abbrev jsrW : Opcode := 0xC9
abbrev breakpoint : Opcode := 0xCA
abbrev impdep1 : Opcode := 0xFE
abbrev impdep2 : Opcode := 0xFF

/-- Within the closed range from `first` to `last`. -/
def within (op first last : Opcode) : Bool := first ≤ op && op ≤ last

def isReturn (op : Opcode) : Bool := within op ireturn voidReturn

/-- Instructions whose successor in the code array is reached, if at all, by a jump. -/
def endsFlow (op : Opcode) : Bool :=
  op == goto || op == gotoW || op == tableswitch || op == lookupswitch || isReturn op
    || op == athrow

def isTerminal (op : Opcode) : Bool := endsFlow op || op == ret

end Opcode

end ClassWeave
