/-
# ClassWeave.Frame.Execute -- one instruction run on a frame

`Frame.execute` applies the effect of an instruction, or says why it cannot.
A stack that holds too few values is the only fault that depends on the frame.

`Frame.afterFailure` is the frame a failed instruction leaves behind: values it
had taken off the stack by then are gone, the locals are untouched.
-/
import ClassWeave.Frame.Effect

set_option autoImplicit false

namespace ClassWeave

/-- The type of an element of an array, as far as the array's descriptor tells: a class name is
what stands between the letters `L` at its start and the semicolons at its end. -/
def arrayElement? : FrameType → Option FrameType
  | .object descriptor =>
    match descriptor.toList with
    | '[' :: element =>
      match element with
      | '[' :: _ => some (.object (String.ofList element))
      | 'L' :: _ =>
        let name := element.dropWhile (· == 'L')
        some (.object (String.ofList (name.reverse.dropWhile (· == ';')).reverse))
      | 'Z' :: _ | 'B' :: _ | 'C' :: _ | 'S' :: _ | 'I' :: _ => some .int
      | 'F' :: _ => some .float
      | 'J' :: _ => some .long
      | 'D' :: _ => some .double
      | _ => none
    | _ => none
  | _ => none

/-- An element of an array, about which nothing may be known. -/
def elementOf (array : FrameType) : FrameType := (arrayElement? array).getD anyObject

namespace Frame

/-- The frame without the `count` values on top of its stack, if it has so many. -/
def take? (frame : Frame) (count : Nat) : Option Frame :=
  if (frame.stack.take count).length = count then
    some { frame with stack := frame.stack.drop count }
  else none

def push (frame : Frame) (types : List FrameType) : Frame :=
  { frame with stack := types ++ frame.stack }

/-- What a slot is loaded as. -/
def loaded (frame : Frame) (slot : Nat) (otherwise : FrameType) : FrameType :=
  if frame.load slot = .top then otherwise else frame.load slot

/-- The frame after an effect, unless the stack holds too few values. -/
def after? (frame : Frame) (className : String) : Effect → Option Frame
  | .replace taken pushed => (frame.take? taken).map fun rest => rest.push pushed
  | .load slot otherwise => some (frame.push [frame.loaded slot otherwise])
  | .store slot =>
    match frame.stack with
    | type :: stack => some (({ frame with stack := stack } : Frame).store slot type)
    | [] => none
  | .element =>
    match frame.stack with
    | _ :: array :: stack => some { frame with stack := elementOf array :: stack }
    | _ => none
  | .shuffle moves => (moves.apply frame.stack).map fun stack => { frame with stack := stack }
  | .construct arguments owner pushed =>
    match frame.stack.drop arguments with
    | receiver :: stack =>
      let owner := if receiver = .uninitializedThis then className else owner
      some ((({ frame with stack := stack } : Frame).construct receiver owner).push pushed)
    | [] => none
  | .refuse taken _ => frame.take? taken

/-- The frame after an instruction that stands at `position`, in a method of `className`. -/
def execute (frame : Frame) (insn : Instruction) (position : Label) (className : String) :
    Except InstrumentError Frame :=
  match insn.effect position with
  | .error cause => .error cause
  | .ok effect =>
    match frame.after? className effect, effect with
    | none, _ => .error (.stackUnderflow insn.opcode)
    | some _, .refuse _ cause => .error cause
    | some after, _ => .ok after

def afterFailure (frame : Frame) (insn : Instruction) (position : Label) : Frame :=
  match insn.effect position with
  | .error _ => frame
  | .ok (.refuse taken _) => { frame with stack := frame.stack.drop taken }
  | .ok _ => { frame with stack := [] }

end Frame

end ClassWeave
