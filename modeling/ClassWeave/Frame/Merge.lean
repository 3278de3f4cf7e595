/-
# ClassWeave.Frame.Merge -- where two ways to one place meet

Two types that differ merge into one that covers both: the null reference into
any object, two classes into the superclass a `Hierarchy` answers, two arrays or
an array and a class into the root class, anything else into `top`.  Slots merge
one by one, as far as both frames have them, and empty slots at the end are
dropped.  Operand stacks merge the same way, but only where they are equally high.

`Frame.questions` lists what a merge asks of the hierarchy, in order.
-/
import ClassWeave.Frame.Basic

set_option autoImplicit false

namespace ClassWeave

/-- What is known of the classes that objects are instances of. -/
structure Hierarchy where
  commonSuperclass : String → String → String

/-- Nothing is known but the root class. -/
def Hierarchy.flat : Hierarchy :=
  ⟨fun left right => if left = right then left else ClassName.object⟩

def isArray (name : String) : Bool := name.toList.head? == some '['

def FrameType.merge (hierarchy : Hierarchy) (a b : FrameType) : FrameType :=
  if a = b then a
  else match a, b with
    | .null, .object name | .object name, .null => .object name
    | .object left, .object right =>
      if isArray left || isArray right then .object ClassName.object
      else .object (hierarchy.commonSuperclass left right)
    | _, _ => .top

/-- The two classes whose common superclass the merge depends on. -/
def FrameType.question? (a b : FrameType) : Option (String × String) :=
  match a, b with
  | .object left, .object right =>
    if left = right || isArray left || isArray right then none else some (left, right)
  | _, _ => none

namespace Frame

def mergeLocals (hierarchy : Hierarchy) (a b : List FrameType) : List FrameType :=
  trimTop (List.zipWith (FrameType.merge hierarchy) a b)

def mergeStacks (hierarchy : Hierarchy) (a b : List FrameType) : List FrameType :=
  if a.length = b.length then
    (List.zipWith (FrameType.merge hierarchy) a b).dropWhile (· == .top)
  else a

/-- What holds on both ways, going by the first frame where the stacks differ in height. -/
def merge (hierarchy : Hierarchy) (a b : Frame) : Frame :=
  ⟨mergeLocals hierarchy a.locals b.locals, mergeStacks hierarchy a.stack b.stack⟩

def localQuestions (a b : List FrameType) : List (String × String) :=
  (List.zipWith FrameType.question? a b).filterMap id

def questions (a b : Frame) : List (String × String) :=
  localQuestions a.locals b.locals
    ++ if a.stack.length = b.stack.length then localQuestions a.stack b.stack else []

end Frame

end ClassWeave
