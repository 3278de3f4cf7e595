/-
# ClassWeave.Location -- where a probe fires

A location names a kind of event in a method, narrows it by class, member, type and
line, and says on which side of a matching instruction to fire.  An empty text and
line zero narrow nothing.

Kinds and sides are read from text without regard to case and surrounding blanks, and
a kind may be spelled with hyphens.  `Location.matches` says which single instructions
a location is anchored to; entries, returns, errors, lines and handlers are no single
instructions and match none.
-/
import ClassWeave.ClassName
import ClassWeave.Instruction
import ClassWeave.Text.Blank
import ClassWeave.Text.Quoted

set_option autoImplicit false

namespace ClassWeave

inductive Kind
  | arrayGet
  | arraySet
  | call
  | catch
  | checkcast
  | entry
  | error
  | fieldGet
  | fieldSet
  | instanceof
  | line
  | new
  | newarray
  | return
  | syncEntry
  | syncExit
  | throw
deriving DecidableEq, Repr

namespace Kind

def display : Kind → String
  | arrayGet => "ARRAY_GET"
  | arraySet => "ARRAY_SET"
  | call => "CALL"
  | .catch => "CATCH"
  | checkcast => "CHECKCAST"
  | entry => "ENTRY"
  | error => "ERROR"
  | fieldGet => "FIELD_GET"
  | fieldSet => "FIELD_SET"
  | instanceof => "INSTANCEOF"
  | line => "LINE"
  | new => "NEW"
  | newarray => "NEWARRAY"
  | .return => "RETURN"
  | syncEntry => "SYNC_ENTRY"
  | syncExit => "SYNC_EXIT"
  | throw => "THROW"

def all : List Kind :=
  [arrayGet, arraySet, call, .catch, checkcast, entry, error, fieldGet, fieldSet, instanceof,
    line, new, newarray, .return, syncEntry, syncExit, throw]

/-- A character as the names of kinds spell it. -/
def spelled (c : Char) : Char := if c = '-' then '_' else c.toUpper

def parse? (text : String) : Option Kind :=
  let wanted := (Text.trim text).map spelled
  all.find? fun kind => kind.display.toList == wanted

/-- What is said of a text that names no kind. -/
def unknown (text : String) : String := "unknown location kind " ++ Text.quoted text

end Kind

/-- The side of an instruction. -/
inductive Side
  | before
  | after
deriving DecidableEq, Repr

namespace Side

def display : Side → String
  | before => "BEFORE"
  | after => "AFTER"

def parse? (text : String) : Option Side :=
  let wanted := (Text.trim text).map Char.toLower
  if wanted = "before".toList then some before
  else if wanted = "after".toList then some after
  else none

/-- What is said of a text that names no side. -/
def unknown (text : String) : String := "unknown placement " ++ Text.quoted text

end Side

structure Location where
  className : String
  method : String
  /-- The type of a field, or the descriptor of a called method. -/
  type : String
  field : String
  line : UInt32
  kind : Kind
  side : Side
deriving DecidableEq, Repr

namespace Location

def display (location : Location) : String :=
  "Location\x7bclazz=" ++ location.className ++ ", method=" ++ location.method
    ++ ", type=" ++ location.type ++ ", field=" ++ location.field
    ++ ", line=" ++ toString location.line.toNat ++ ", kind=" ++ location.kind.display
    ++ ", where=" ++ location.side.display ++ "\x7d"

def allowsName (pattern name : String) : Bool := pattern.isEmpty || pattern == name

def allowsClass (pattern name : String) : Bool :=
  pattern.isEmpty || ClassName.ofString pattern == ClassName.ofString name

def allowsLine (location : Location) (number : UInt16) : Bool :=
  location.line == 0 || location.line == number.toUInt32

def allowsField (location : Location) (target : MemberRef) : Bool :=
  allowsClass location.className target.owner && allowsName location.field target.name
    && allowsName location.type target.descriptor

def allowsCall (location : Location) (target : MemberRef) : Bool :=
  allowsClass location.className target.owner && allowsName location.method target.name
    && allowsName location.type target.descriptor

def «matches» (location : Location) (insn : Instruction) : Bool :=
  match location.kind, insn with
  | .call, .method _ target _ => location.allowsCall target
  | .fieldGet, .field op target =>
    (op == Opcode.getfield || op == Opcode.getstatic) && location.allowsField target
  | .fieldSet, .field op target =>
    (op == Opcode.putfield || op == Opcode.putstatic) && location.allowsField target
  | .new, .type op name => op == Opcode.new && allowsClass location.className name
  | .newarray, .int op _ => op == Opcode.newarray
  | .newarray, .type op name => op == Opcode.anewarray && allowsClass location.className name
  | .newarray, .multiNewArray _ _ => true
  | .checkcast, .type op name => op == Opcode.checkcast && allowsClass location.className name
  | .instanceof, .type op name =>
    op == Opcode.instanceof && allowsClass location.className name
  | .arrayGet, .simple op => Opcode.within op Opcode.iaload Opcode.saload
  | .arraySet, .simple op => Opcode.within op Opcode.iastore Opcode.sastore
  | .throw, .simple op => op == Opcode.athrow
  | .syncEntry, .simple op => op == Opcode.monitorenter
  | .syncExit, .simple op => op == Opcode.monitorexit
  | _, _ => false

end Location

end ClassWeave
