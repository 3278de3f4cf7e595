/-
# ClassWeave.Frame.Type -- the types the verifier gives to slots

Locals come in two forms.  In slot form a long or double is followed by the upper
slot it occupies, typed `top`; stack maps use the compact form, where it is one
entry.  `compactLocals` and `expandLocals` go from one to the other.

A `FrameRequest` says how the operand stack at a label comes about, for code that
is injected there.
-/
import ClassWeave.Instruction

set_option autoImplicit false

namespace ClassWeave

inductive FrameType
  | top
  | int
  | float
  | long
  | double
  | null
  | uninitializedThis
  /-- An instance of a class, or an array, under its descriptor. -/
  | object (name : String)
  /-- The result of the `new` instruction at a label, before its constructor has run. -/
  | uninitialized (site : Label)
deriving DecidableEq, Repr

namespace FrameType

def isWide : FrameType → Bool
  | long | double => true
  | _ => false

def slots (type : FrameType) : Nat := if type.isWide then 2 else 1

def display : FrameType → String
  | top => "top"
  | int => "int"
  | float => "float"
  | long => "long"
  | double => "double"
  | null => "null"
  | uninitializedThis => "uninitializedThis"
  | object name => name
  | uninitialized site => "uninitialized(" ++ toString site.id ++ ")"

/-- The type with the label of its `new` instruction, if it has one, renamed. -/
def relabel (rename : Label → Label) : FrameType → FrameType
  | uninitialized site => uninitialized (rename site)
  | type => type

end FrameType

/-- Without the entries typed `top` at the end. -/
def trimTop (types : List FrameType) : List FrameType :=
  (types.reverse.dropWhile (· == FrameType.top)).reverse

/-- One entry for each value, the upper slot of a wide one left out whatever it holds. -/
def compactEntries : List FrameType → List FrameType
  | [] => []
  | type :: rest =>
    if type.isWide then
      match rest with
      | [] => [type]
      | _ :: rest => type :: compactEntries rest
    else type :: compactEntries rest

def compactLocals (locals : List FrameType) : List FrameType := trimTop (compactEntries locals)

def expandLocals (locals : List FrameType) : List FrameType :=
  locals.flatMap fun type => if type.isWide then [type, FrameType.top] else [type]

inductive FrameRequest
  /-- The operand stack is exactly these types, bottom first. -/
  | replace (stack : List FrameType)
  /-- These types lie on top of the incoming operand stack. -/
  | append (types : List FrameType)
  /-- The incoming operand stack is kept. -/
  | same
deriving DecidableEq, Repr

def FrameRequest.display : FrameRequest → String
  | replace types => "replace [" ++ ", ".intercalate (types.map FrameType.display) ++ "]"
  | append types => "append [" ++ ", ".intercalate (types.map FrameType.display) ++ "]"
  | same => "same"

end ClassWeave
