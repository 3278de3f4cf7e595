/-
# ClassWeave.MethodBody -- a method body collected from its events

A body keeps code, exception blocks, frames, variables and sizes, each in the order
it was told.  A frame needs a label at its place: the last one told, if no
instruction came after it, or else a label of its own, numbered by the length of the
code so far so that no two frames share one.
-/
import ClassWeave.Code.Attribute

set_option autoImplicit false

namespace ClassWeave

structure MethodBody where
  nodes : Array Node
  tryBlocks : Array TryBlock
  frames : Array PinnedFrame
  declared : Array Variable
  maxStack : UInt16
  maxLocals : UInt16
  /-- The label at the end of the code, if there is one. -/
  here : Option Label
deriving DecidableEq

namespace MethodBody

def empty : MethodBody := ⟨#[], #[], #[], #[], 0, 0, none⟩

def placeLabel (body : MethodBody) (label : Label) : MethodBody :=
  { body with nodes := body.nodes.push (.label label), here := some label }

def addFrame (body : MethodBody) (locals stack : List FrameType) : MethodBody :=
  match body.here with
  | some label => { body with frames := body.frames.push ⟨label, locals, stack⟩ }
  | none =>
    let label : Label := ⟨Label.firstFresh + body.nodes.size⟩
    let body := body.placeLabel label
    { body with frames := body.frames.push ⟨label, locals, stack⟩ }

def add (body : MethodBody) : MethodEvent → MethodBody
  | .sizes _ _ | .finish => body
  | .frame locals stack => body.addFrame locals stack
  | .label label => body.placeLabel label
  | .line number start => { body with nodes := body.nodes.push (.line number start) }
  | .tryBlock block => { body with tryBlocks := body.tryBlocks.push block }
  | .variable entry => { body with declared := body.declared.push entry }
  | .insn instruction => { body with nodes := body.nodes.push (.insn instruction), here := none }
  | .maxs maxStack maxLocals => { body with maxStack := maxStack, maxLocals := maxLocals }

def ofEvents (events : List MethodEvent) : MethodBody := events.foldl add empty

def code (body : MethodBody) : Snippet := body.nodes.toList

/-- The payload of a code attribute; the exception blocks stand in their final order. -/
def encode (body : MethodBody) (withFrames : Bool) : Interning Bytes := do
  let assembled ← assemble body.code
  let handlers ← assembled.resolveHandlers body.tryBlocks.toList
  assembled.encode body.maxStack body.maxLocals handlers
    (if withFrames then some body.frames.toList else none) body.declared.toList

end MethodBody

end ClassWeave
