/-
# ClassWeave.Error -- what can go wrong, and how it is told

Each type lists causes of one stage: reading a class file, writing one, rewriting
a method, finding a class.  `message` gives the one wording of each cause; an
error that has another one as its cause ends in the wording of that one.  `kind`
is the name of the cause without its particulars, for programs that tell causes
apart: a path from the stage to the cause.
-/
import ClassWeave.Frame.Type
import ClassWeave.Text.ModifiedUtf8
import ClassWeave.Text.Quoted

set_option autoImplicit false

namespace ClassWeave

/-- Why bytes are not a class file, or do not hold what is looked for in them. -/
inductive ReadError
  | unexpectedEnd
  | invalidMagic (found : UInt32)
  | invalidTag (tag : UInt8)
  | invalidIndex (index : UInt16)
  | invalidAttribute (name : String)
  | invalidOpcode (op : Opcode) (offset : Nat)
  | invalidBranchTarget (offset : Nat) (target : Int)
  | malformedText (fault : Text.Malformed)
  | invalidDescriptor (text : String)
deriving DecidableEq, Repr

def ReadError.message : ReadError → String
  | unexpectedEnd => "unexpected end of input"
  | invalidMagic found => "invalid magic 0x" ++ Text.hexPadded 8 found.toNat
  | invalidTag tag => "invalid constant pool tag " ++ toString tag.toNat
  | invalidIndex index => "invalid constant pool index " ++ toString index.toNat
  | invalidAttribute name => "invalid attribute " ++ name
  | invalidOpcode op offset =>
    "invalid opcode 0x" ++ Text.hexPadded 2 op.toNat ++ " at " ++ toString offset
  | invalidBranchTarget offset target =>
    "branch at " ++ toString offset ++ " targets " ++ toString target
      ++ ", outside the code array"
  | malformedText fault => "modified utf8 error: " ++ fault.message
  | invalidDescriptor text => "invalid descriptor " ++ Text.quoted text

def ReadError.kind : ReadError → String
  | unexpectedEnd => "Read.UnexpectedEof"
  | invalidMagic _ => "Read.InvalidMagic"
  | invalidTag _ => "Read.InvalidConstantPoolTag"
  | invalidIndex _ => "Read.InvalidIndex"
  | invalidAttribute _ => "Read.InvalidAttribute"
  | invalidOpcode _ _ => "Read.InvalidOpcode"
  | invalidBranchTarget _ _ => "Read.InvalidBranchTarget"
  | malformedText _ => "Read.Utf8Error"
  | invalidDescriptor _ => "Read.InvalidDescriptor"

/-- Why a class cannot be written down. -/
inductive WriteError
  | poolOverflow
  | invalidPoolEntry (index : UInt16)
  | unresolvedLabel (label : Label)
  | branchOutOfRange (source target : Nat)
  | codeTooLarge (length : Nat)
  | invalidDescriptor (text : String)
deriving DecidableEq, Repr

def WriteError.message : WriteError → String
  | poolOverflow => "constant pool exceeds 65535 entries"
  | invalidPoolEntry index => "invalid constant pool entry " ++ toString index.toNat
  | unresolvedLabel label => "label " ++ label.display ++ " was never placed"
  | branchOutOfRange source target =>
    "branch from " ++ toString source ++ " to " ++ toString target
      ++ " does not fit a 16-bit offset"
  | codeTooLarge length => "code length " ++ toString length ++ " exceeds 65535 bytes"
  | invalidDescriptor text => "invalid descriptor " ++ Text.quoted text

def WriteError.kind : WriteError → String
  | poolOverflow => "Write.ConstantPoolOverflow"
  | invalidPoolEntry _ => "Write.InvalidConstantPool"
  | unresolvedLabel _ => "Write.UnresolvedLabel"
  | branchOutOfRange _ _ => "Write.BranchOutOfRange"
  | codeTooLarge _ => "Write.CodeTooLarge"
  | invalidDescriptor _ => "Write.InvalidDescriptor"

/-- How far the rewriting of a method has come. -/
inductive Phase
  | open
  | closing
  | closed
deriving DecidableEq, Repr

def Phase.display : Phase → String
  | .open => "OPEN"
  | .closing => "CLOSING"
  | .closed => "CLOSED"

/-- Why a type is of no use where it stands. -/
inductive TypeFault
  | voidSlot
  | voidValue
  | arrayCode (code : Nat)
  /-- Refused by probe code, in its own words. -/
  | refused (text : String)
deriving DecidableEq, Repr

def TypeFault.message : TypeFault → String
  | voidSlot => "void has no slot"
  | voidValue => "void has no verifier type"
  | arrayCode code => "invalid newarray type " ++ toString code
  | refused text => text

/-- Why a method cannot be rewritten. -/
inductive InstrumentError
  | frameConflict (label : Label) (existing requested : FrameRequest)
  | methodClosed (phase : Phase)
  | labelNotPlaced (label : Label)
  | stackUnderflow (op : Opcode)
  | unsupportedInstruction (op : Opcode)
  | invalidType (fault : TypeFault)
  | tooManyLocals
  | write (cause : WriteError)
  | read (cause : ReadError)
deriving DecidableEq, Repr

def InstrumentError.message : InstrumentError → String
  | frameConflict label existing requested =>
    "conflicting frame requests at " ++ label.display ++ ": " ++ existing.display ++ " vs "
      ++ requested.display
  | methodClosed phase =>
    "method state is " ++ phase.display ++ ", no further instrumentation accepted"
  | labelNotPlaced label =>
    "frame requested for " ++ label.display ++ ", which is not the current code position"
  | stackUnderflow op => "operand stack underflow at opcode 0x" ++ Text.hexPadded 2 op.toNat
  | unsupportedInstruction op => "unsupported instruction 0x" ++ Text.hexPadded 2 op.toNat
  | invalidType fault => "invalid type: " ++ fault.message
  | tooManyLocals => "local slot space exhausted"
  | write cause => cause.message
  | read cause => cause.message

def InstrumentError.kind : InstrumentError → String
  | frameConflict _ _ _ => "FrameConflict"
  | methodClosed _ => "MethodClosed"
  | labelNotPlaced _ => "LabelNotPlaced"
  | stackUnderflow _ => "StackUnderflow"
  | unsupportedInstruction _ => "UnsupportedInstruction"
  | invalidType _ => "InvalidType"
  | tooManyLocals => "TooManyLocals"
  | write cause => cause.kind
  | read cause => cause.kind

/-- Why a class is not to be had from a loader, which goes by its display name. -/
inductive ResolveError
  | notFound (loader name : String)
  | unreadable (name : String) (cause : ReadError)
deriving DecidableEq, Repr

def ResolveError.message : ResolveError → String
  | notFound loader name => "class " ++ name ++ " not found by loader " ++ loader
  | unreadable name cause =>
    "class " ++ name ++ " could not be parsed: " ++ cause.message

def ResolveError.kind : ResolveError → String
  | notFound _ _ => "Resolve.NotFound"
  | unreadable _ cause => "Resolve." ++ cause.kind

/-- Why a class is left as it was. -/
inductive WeaveError
  | read (cause : ReadError)
  | write (cause : WriteError)
  | resolve (cause : ResolveError)
  | instrument (className method : String) (cause : InstrumentError)
deriving DecidableEq, Repr

def WeaveError.message : WeaveError → String
  | read cause => "class read error: " ++ cause.message
  | write cause => "class write error: " ++ cause.message
  | resolve cause => "class resolution error: " ++ cause.message
  | instrument className method cause =>
    "instrumentation of " ++ className ++ "." ++ method ++ " failed: " ++ cause.message

def WeaveError.kind : WeaveError → String
  | read cause => cause.kind
  | write cause => cause.kind
  | resolve cause => cause.kind
  | instrument _ _ cause => "Instrument." ++ cause.kind

end ClassWeave
