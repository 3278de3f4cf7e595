/-
# ClassWeave.Instruction -- instructions with symbolic operands

An instruction names classes, members and constants by themselves and its
targets by labels; pool indexes and offsets exist only in a code array.  Method
handles and dynamic constants are the exception: they stay at the pool index they
were read from, since the data that bootstraps them is never looked at.

A label read from a class file has the offset it stood at for its number.  Code is
at most 65535 bytes long, so the numbers from `Label.firstFresh` on are free for
labels of another origin.

`Instruction.normal` forgets which of its three forms a constant load was written
in, `Instruction.relabel` renames targets, and `Snippet` is code with its labels and
line markers in place.
-/
import ClassWeave.Opcode
import Std.Data.TreeMap

set_option autoImplicit false

namespace ClassWeave

structure Label where
  id : Nat
deriving DecidableEq, Repr

namespace Label

instance : Ord Label := ⟨compareOn id⟩

instance : Std.TransOrd Label := inferInstanceAs (Std.TransCmp (compareOn id))

instance : Std.LawfulEqOrd Label where
  eq_of_compare {a b} same := by
    have ids : compare a.id b.id = .eq := same
    cases a
    cases b
    exact congrArg Label.mk (Std.LawfulEqOrd.eq_of_compare ids)

def firstFresh : Nat := 0x10000

/-- Whether the label comes from no offset of a code array. -/
def isFresh (label : Label) : Bool := firstFresh ≤ label.id

/-- A label as error messages show it. -/
def display (label : Label) : String := "LabelNode \x7b id: " ++ toString label.id ++ " \x7d"

end Label

/-- A field or method, by the class it is looked up in. -/
structure MemberRef where
  owner : String
  name : String
  descriptor : String
deriving DecidableEq, Repr

/-- A constant that an instruction can push.  Floating point values are kept as bits. -/
inductive Loadable
  | int (value : Int32)
  | float (bits : UInt32)
  | long (value : Int64)
  | double (bits : UInt64)
  | string (text : String)
  | class (name : String)
  | methodType (descriptor : String)
  | methodHandle (index : UInt16)
  | dynamic (index : UInt16) (descriptor : String)
deriving DecidableEq

/-- Whether the constant takes two stack slots. -/
def Loadable.isWide : Loadable → Bool
  | long _ | double _ => true
  | dynamic _ descriptor => descriptor == "J" || descriptor == "D"
  | _ => false

inductive Instruction
  | simple (op : Opcode)
  | int (op : Opcode) (operand : Int32)
  | var (op : Opcode) (slot : UInt16)
  | type (op : Opcode) (name : String)
  | field (op : Opcode) (target : MemberRef)
  | method (op : Opcode) (target : MemberRef) (isInterface : Bool)
  | invokeDynamic (bootstrap : UInt16) (name descriptor : String)
  | jump (op : Opcode) (target : Label)
  | ldc (op : Opcode) (constant : Loadable)
  | iinc (slot : UInt16) (increment : Int16)
  | tableSwitch (low high : Int32) (default : Label) (targets : List Label)
  | lookupSwitch (default : Label) (pairs : List (Int32 × Label))
  | multiNewArray (name : String) (dimensions : UInt8)
deriving DecidableEq

namespace Instruction

def opcode : Instruction → Opcode
  | simple op | int op _ | var op _ | type op _ | field op _ | method op _ _ | jump op _
  | ldc op _ => op
  | invokeDynamic .. => Opcode.invokedynamic
  | iinc .. => Opcode.iinc
  | tableSwitch .. => Opcode.tableswitch
  | lookupSwitch .. => Opcode.lookupswitch
  | multiNewArray .. => Opcode.multianewarray

/-- The labels control may go to instead of falling through, the default of a switch last. -/
def targets : Instruction → List Label
  | jump _ target => [target]
  | tableSwitch _ _ default targets => targets ++ [default]
  | lookupSwitch default pairs => pairs.map Prod.snd ++ [default]
  | _ => []

def relabel (rename : Label → Label) : Instruction → Instruction
  | jump op target => jump op (rename target)
  | tableSwitch low high default targets =>
    tableSwitch low high (rename default) (targets.map rename)
  | lookupSwitch default pairs =>
    lookupSwitch (rename default) (pairs.map fun (key, target) => (key, rename target))
  | other => other

/-- A constant load.  Whether a narrow one is written for a short or a long pool index is up to
the assembler. -/
def load (constant : Loadable) : Instruction :=
  ldc (if constant.isWide then Opcode.ldc2W else Opcode.ldc) constant

def normal : Instruction → Instruction
  | ldc _ constant => load constant
  | other => other

/-- A field access, by the parts of the field. -/
def access (op : Opcode) (owner name descriptor : String) : Instruction :=
  field op ⟨owner, name, descriptor⟩

/-- A method call; only the opcode tells whether the owner is an interface. -/
def call (op : Opcode) (owner name descriptor : String) : Instruction :=
  method op ⟨owner, name, descriptor⟩ (op == Opcode.invokeinterface)

end Instruction

inductive Node
  | label (label : Label)
  | line (number : UInt16) (start : Label)
  | insn (instruction : Instruction)
deriving DecidableEq

namespace Node

def instruction? : Node → Option Instruction
  | insn instruction => some instruction
  | _ => none

end Node

abbrev Snippet := List Node

namespace Snippet

def instructions (code : Snippet) : List Instruction := code.filterMap Node.instruction?

/-- The labels that some jump or switch of the code targets, by number, each once. -/
def jumpTargets (code : Snippet) : List Label :=
  ((code.instructions.flatMap Instruction.targets).mergeSort
    fun a b => decide (a.id ≤ b.id)).eraseReps

end Snippet

end ClassWeave
