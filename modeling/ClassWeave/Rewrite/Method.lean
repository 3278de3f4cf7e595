/-
# ClassWeave.Rewrite.Method -- one method rewritten in one pass

A `MethodRewrite` takes the events of a method and, between them, the events and
requests of injected code.  It collects a new body, and runs every instruction on a
frame while it does, so that it knows the types of locals and stack wherever injected
code asks for a frame.

Nothing is run twice.  What a forward jump carries is kept in `saved` until its target
is placed; a label that only backward jumps reach is taken to hold the locals of
`prefixLocals`, the straight code that every run of the method goes through first; a
handler holds what the locals have in common before all instructions it covers, which
`snapshots` remembers.  A frame the method brings decides about the slots the method
knows, and the simulation about the others.

The first fault of any operation is kept and decides the outcome when the method
ends: a fault, or a new code payload, or nothing at all for a method that no code was
injected into.  `RewriteTarget` gathers the outcomes of the methods of a class.
-/
import ClassWeave.Frame.Height
import ClassWeave.Frame.Merge
import ClassWeave.MethodBody
import ClassWeave.Options
import ClassWeave.Rewrite.Handlers
import ClassWeave.Rewrite.Ledger

set_option autoImplicit false

namespace ClassWeave

/-- The method being rewritten, by its place in the class. -/
structure MethodContext where
  index : Nat
  access : UInt16
  name : String
  descriptor : String
deriving DecidableEq, Repr

namespace MethodContext

def isStatic (method : MethodContext) : Bool := AccessFlag.static.isIn method.access

def isConstructor (method : MethodContext) : Bool := method.name == constructorName

end MethodContext

/-- What the rewrites of all methods of a class share. -/
structure RewriteTarget where
  className : String
  major : UInt16
  pool : ConstantPool
  hierarchy : Hierarchy
  options : Options
  /-- Code payloads by method index, the last one first. -/
  rewritten : List (Nat × Bytes)
  /-- The first method that failed, and why. -/
  failure : Option (String × InstrumentError)
  /-- The classes whose common superclass was asked for, the last pair first. -/
  asked : List (String × String)

namespace RewriteTarget

def start (className : String) (major : UInt16) (pool : ConstantPool) (hierarchy : Hierarchy)
    (options : Options) : RewriteTarget :=
  ⟨className, major, pool, hierarchy, options, [], none, []⟩

def payload? (target : RewriteTarget) (index : Nat) : Option Bytes :=
  target.rewritten.lookup index

def ask (target : RewriteTarget) (questions : List (String × String)) : RewriteTarget :=
  { target with asked := questions.reverse ++ target.asked }

end RewriteTarget

structure MethodRewrite where
  target : RewriteTarget
  method : MethodContext
  ledger : Ledger
  body : MethodBody
  hasCode : Bool
  /-- Whether anything but the method's own events has come in. -/
  injected : Bool
  originalMaxStack : UInt16
  originalMaxLocals : UInt16
  current : Frame
  /-- The slots of the current operand stack, kept along. -/
  height : Nat
  reachable : Bool
  /-- What forward jumps carry to labels that are not placed yet. -/
  saved : Std.TreeMap Label Frame
  /-- The labels placed since the last instruction, the last one first. -/
  group : List Label
  frameRequestedHere : Bool
  /-- How many instructions stand before each label that is placed. -/
  positions : Std.TreeMap Label Nat
  /-- The locals before each instruction. -/
  snapshots : Array (List FrameType)
  /-- The exception blocks of the method and of injected code, by handler. -/
  ranges : Std.TreeMap Label (Array TryBlock)
  inPrefix : Bool
  prefixLocals : List FrameType
  nextLabel : Nat
  maxStack : Nat
  maxLocals : Nat
  fault : Option InstrumentError

namespace MethodRewrite

/-- A rewrite that has seen no event.  A descriptor that says nothing fails the method when it
ends. -/
def start (target : RewriteTarget) (method : MethodContext) : MethodRewrite :=
  let initial := Frame.initial target.className method.name method.descriptor method.isStatic
  let (current, fault) : Frame × Option InstrumentError := match initial with
    | .ok frame => (frame, none)
    | .error cause => (Frame.empty, some cause)
  { target := target
    method := method
    ledger := Ledger.new (UInt16.ofNat current.locals.length)
    body := MethodBody.empty
    hasCode := false
    injected := false
    originalMaxStack := 0
    originalMaxLocals := 0
    current := current
    height := 0
    reachable := true
    saved := ∅
    group := []
    frameRequestedHere := false
    positions := ∅
    snapshots := #[]
    ranges := ∅
    inPrefix := true
    prefixLocals := []
    nextLabel := 0
    maxStack := 0
    maxLocals := current.locals.length
    fault := fault }

/-- Only the first fault counts. -/
def fail (rewrite : MethodRewrite) (cause : InstrumentError) : MethodRewrite :=
  { rewrite with fault := some (rewrite.fault.getD cause) }

def ask (rewrite : MethodRewrite) (questions : List (String × String)) : MethodRewrite :=
  { rewrite with target := rewrite.target.ask questions }

def freshLabel (rewrite : MethodRewrite) : Label × MethodRewrite :=
  (⟨Label.firstFresh + rewrite.nextLabel⟩, { rewrite with nextLabel := rewrite.nextLabel + 1 })

def noteDepth (rewrite : MethodRewrite) : MethodRewrite :=
  { rewrite with
    maxStack := max rewrite.maxStack rewrite.height
    maxLocals := max rewrite.maxLocals rewrite.current.locals.length }

/-- The rewrite at another frame. -/
def moveTo (rewrite : MethodRewrite) (frame : Frame) : MethodRewrite :=
  { rewrite with current := frame, height := frame.stackSlots }

def endPrefix (rewrite : MethodRewrite) : MethodRewrite :=
  if rewrite.inPrefix then
    { rewrite with inPrefix := false, prefixLocals := rewrite.current.locals }
  else rewrite

/-- The current frame, pinned to a label. -/
def recordFrame (rewrite : MethodRewrite) (label : Label) : MethodRewrite :=
  let frame : PinnedFrame :=
    ⟨label, compactLocals rewrite.current.locals, rewrite.current.stack.reverse⟩
  { rewrite with body := { rewrite.body with frames := rewrite.body.frames.push frame } }

/-! ## Handlers -/

def rangesOf (rewrite : MethodRewrite) (handler : Label) : List TryBlock :=
  ((rewrite.ranges[handler]?).getD #[]).toList

def isHandler (rewrite : MethodRewrite) (label : Label) : Bool := rewrite.ranges.contains label

def addRange (rewrite : MethodRewrite) (block : TryBlock) : MethodRewrite :=
  { rewrite with
    ranges := rewrite.ranges.alter block.handler fun blocks =>
      some ((blocks.getD #[]).push block) }

/-- The locals before each instruction of a range that has begun. -/
def covered (rewrite : MethodRewrite) (block : TryBlock) : List (List FrameType) :=
  match rewrite.positions[block.start]? with
  | none => []
  | some first =>
    let last := (rewrite.positions[block.stop]?).getD rewrite.snapshots.size
    (rewrite.snapshots.extract first (min last rewrite.snapshots.size)).toList

def caughtClass (block : TryBlock) : String := block.catchType.getD ClassName.throwable

/-- One class for all that a handler catches. -/
def caught (hierarchy : Hierarchy) : List TryBlock → String
  | [] => ClassName.throwable
  | first :: rest =>
    rest.foldl (fun seen block => hierarchy.commonSuperclass seen (caughtClass block))
      (caughtClass first)

def caughtQuestions (hierarchy : Hierarchy) : List TryBlock → List (String × String)
  | [] => []
  | first :: rest =>
    (rest.foldl
      (fun (seen, questions) block =>
        (hierarchy.commonSuperclass seen (caughtClass block),
          (seen, caughtClass block) :: questions))
      (caughtClass first, [])).2.reverse

/-- The locals that the given ones have in common, if there are any. -/
def common (hierarchy : Hierarchy) : List (List FrameType) → Option (List FrameType)
  | [] => none
  | first :: rest => some (rest.foldl (Frame.mergeLocals hierarchy) first)

def commonQuestions (hierarchy : Hierarchy) : List (List FrameType) → List (String × String)
  | [] => []
  | first :: rest =>
    (rest.foldl
      (fun (seen, questions) locals =>
        (Frame.mergeLocals hierarchy seen locals,
          (Frame.localQuestions seen locals).reverse ++ questions))
      (first, [])).2.reverse

/-- The frame a handler starts with. -/
def handlerFrame (rewrite : MethodRewrite) (handler : Label) : Frame :=
  let ranges := rewrite.rangesOf handler
  let hierarchy := rewrite.target.hierarchy
  ⟨(common hierarchy (ranges.flatMap rewrite.covered)).getD rewrite.current.locals,
    [.object (caught hierarchy ranges)]⟩

/-- What working out that frame asks of the hierarchy. -/
def handlerQuestions (rewrite : MethodRewrite) (handler : Label) : List (String × String) :=
  let ranges := rewrite.rangesOf handler
  let hierarchy := rewrite.target.hierarchy
  caughtQuestions hierarchy ranges
    ++ commonQuestions hierarchy (ranges.flatMap rewrite.covered)

/-! ## Labels and frames -/

/-- What falls or jumps forward to a label that is placed now. -/
def incoming (rewrite : MethodRewrite) (label : Label) : Option Frame :=
  match rewrite.reachable, rewrite.saved[label]? with
  | true, some saved => some (Frame.merge rewrite.target.hierarchy rewrite.current saved)
  | true, none => some rewrite.current
  | false, saved => saved

def incomingQuestions (rewrite : MethodRewrite) (label : Label) : List (String × String) :=
  match rewrite.reachable, rewrite.saved[label]? with
  | true, some saved => Frame.questions rewrite.current saved
  | _, _ => []

/-- The frame at a label that is placed now.  Without one, only backward jumps lead here. -/
def arriving (rewrite : MethodRewrite) (label : Label) : Option Frame :=
  if rewrite.isHandler label then some (rewrite.handlerFrame label) else rewrite.incoming label

def placeLabel (rewrite : MethodRewrite) (label : Label) : MethodRewrite :=
  let arriving := rewrite.arriving label
  let questions := rewrite.incomingQuestions label
    ++ if rewrite.isHandler label then rewrite.handlerQuestions label else []
  let rewrite := { rewrite.ask questions with saved := rewrite.saved.erase label }
  let rewrite := match arriving with
    | some frame => noteDepth { rewrite.moveTo frame with reachable := true }
    -- Only jumps back can lead here, and those carry what the prefix established.
    | none => rewrite.moveTo ⟨rewrite.prefixLocals, []⟩
  { rewrite with
    group := label :: rewrite.group
    positions := rewrite.positions.insert label rewrite.snapshots.size
    body := rewrite.body.placeLabel label }

/-- The last label placed here, or else a fresh one. -/
def labelHere (rewrite : MethodRewrite) : Label × MethodRewrite :=
  match rewrite.group with
  | label :: _ => (label, rewrite)
  | [] =>
    let (label, rewrite) := rewrite.freshLabel
    (label, rewrite.placeLabel label)

/-- The operand stack that a request makes of the current one, its top first. -/
def requestedStack (current : List FrameType) : FrameRequest → List FrameType
  | .replace stack => stack.reverse
  | .append types => types.reverse ++ current
  | .same => current

/-- The frame that a request makes of the current one; a handler keeps its own locals. -/
def requestedFrame (rewrite : MethodRewrite) (label : Label) (wanted : FrameRequest) : Frame :=
  ⟨if rewrite.isHandler label then (rewrite.handlerFrame label).locals else rewrite.current.locals,
    requestedStack rewrite.current.stack wanted⟩

/-- The requested frame recorded; control is taken to come to it. -/
def grantFrame (rewrite : MethodRewrite) (label : Label) (wanted : FrameRequest) :
    MethodRewrite :=
  let frame := rewrite.requestedFrame label wanted
  let questions := if rewrite.isHandler label then rewrite.handlerQuestions label else []
  let rewrite := endPrefix (rewrite.ask questions)
  let rewrite := { rewrite.moveTo frame with reachable := true, frameRequestedHere := true }
  rewrite.noteDepth.recordFrame label

/-- A frame at a label that stands at the end of the code. -/
def requestFrame (rewrite : MethodRewrite) (label : Label) (wanted : FrameRequest) :
    Except InstrumentError Unit × MethodRewrite :=
  match rewrite.ledger.ensureOpen with
  | .error cause => (.error cause, rewrite)
  | .ok () =>
    let rewrite := { rewrite with injected := true }
    if !rewrite.group.contains label then (.error (.labelNotPlaced label), rewrite)
    else
      match rewrite.ledger.request label wanted with
      | .error cause => (.error cause, rewrite)
      -- The same request again: its frame is recorded already.
      | .ok (false, _) => (.ok (), rewrite)
      | .ok (true, ledger) => (.ok (), { rewrite with ledger := ledger }.grantFrame label wanted)

/-- The type in an original frame, under the label that its `new` instruction has now. -/
def remap (original : FrameType) (simulated : Option FrameType) : FrameType :=
  match original, simulated with
  | .uninitialized _, some (.uninitialized site) => .uninitialized site
  | _, _ => original

/-- The slots below `known` come from the frame of the method, those above it are kept. -/
def mergedLocals : Nat → List FrameType → List FrameType → List FrameType
  | 0, _, current => current
  | known + 1, original, current =>
    remap (original.head?.getD .top) current.head?
      :: mergedLocals known original.tail current.tail

/-- The stack of an original frame; both stacks have their top first. -/
def mergedStack (original current : List FrameType) : List FrameType :=
  if original.length = current.length then
    List.zipWith (fun type simulated => remap type (some simulated)) original current
  else original

/-- A frame of the method at the current place, unless injected code has asked for one here. -/
def originalFrame (rewrite : MethodRewrite) (locals stack : List FrameType) : MethodRewrite :=
  if rewrite.frameRequestedHere then rewrite
  else
    let (label, rewrite) := rewrite.labelHere
    let rewrite := rewrite.endPrefix
    let locals :=
      mergedLocals rewrite.originalMaxLocals.toNat (expandLocals locals) rewrite.current.locals
    let stack := mergedStack stack.reverse rewrite.current.stack
    let rewrite := { rewrite.moveTo ⟨locals, stack⟩ with reachable := true }
    rewrite.noteDepth.recordFrame label

/-! ## Instructions -/

/-- The current frame kept for a target that is not placed yet. -/
def carry (rewrite : MethodRewrite) (label : Label) : MethodRewrite :=
  -- A jump back: its target has a frame already, and keeps it.
  if rewrite.positions.contains label then rewrite
  else
    match rewrite.saved[label]? with
    | none => { rewrite with saved := rewrite.saved.insert label rewrite.current }
    | some saved =>
      let merged := Frame.merge rewrite.target.hierarchy saved rewrite.current
      { rewrite.ask (Frame.questions saved rewrite.current) with
        saved := rewrite.saved.insert label merged }

/-- The instruction run on the current frame, where it can be reached and nothing has failed. -/
def simulate (rewrite : MethodRewrite) (insn : Instruction) (position : Label) : MethodRewrite :=
  if rewrite.fault.isNone && rewrite.reachable then
    match rewrite.current.execute insn position rewrite.target.className with
    | .ok frame =>
      let height := rewrite.current.heightAfterExecute frame rewrite.height insn position
      noteDepth { rewrite with current := frame, height := height }
    | .error cause =>
      noteDepth ((rewrite.fail cause).moveTo (rewrite.current.afterFailure insn position))
  else rewrite

/-- The place of an instruction: every `new` has a label, others may do without. -/
def position (rewrite : MethodRewrite) (insn : Instruction) : Label × MethodRewrite :=
  match rewrite.group with
  | label :: _ => (label, rewrite)
  | [] => if insn.opcode = Opcode.new then rewrite.labelHere else (⟨0⟩, rewrite)

/-- Where control goes after an instruction: to its targets, and on unless it ends there. -/
def leave (rewrite : MethodRewrite) (insn : Instruction) : MethodRewrite :=
  let rewrite := if rewrite.reachable then insn.targets.foldl carry rewrite else rewrite
  let ends := insn.opcode.endsFlow
  -- The prefix is the code that every path runs through, so it ends at the first branch.
  let rewrite := if ends || !insn.targets.isEmpty then rewrite.endPrefix else rewrite
  if ends then { rewrite.moveTo ⟨rewrite.current.locals, []⟩ with reachable := false }
  else rewrite

/-- The instruction written at the end of the code. -/
def putInstruction (rewrite : MethodRewrite) (insn : Instruction) : MethodRewrite :=
  { rewrite with
    group := []
    frameRequestedHere := false
    body := rewrite.body.add (.ofInstruction insn) }

def instruction (rewrite : MethodRewrite) (insn : Instruction) : MethodRewrite :=
  if rewrite.ledger.phase ≠ .open then rewrite.fail (.methodClosed rewrite.ledger.phase)
  else
    let (position, rewrite) := rewrite.position insn
    let rewrite := { rewrite with snapshots := rewrite.snapshots.push rewrite.current.locals }
    ((rewrite.simulate insn position).leave insn).putInstruction insn

/-! ## The end -/

/-- The sizes of the new code: as large as the simulation saw, and no smaller than they were. -/
def finalMaxStack (rewrite : MethodRewrite) : UInt16 :=
  max (UInt16.ofNat (min rewrite.maxStack 0xFFFF)) rewrite.originalMaxStack

def finalMaxLocals (rewrite : MethodRewrite) : UInt16 :=
  max (max (UInt16.ofNat (min rewrite.maxLocals 0xFFFF)) rewrite.originalMaxLocals)
    rewrite.ledger.nextLocal

/-- The new code payload. -/
def serialize (rewrite : MethodRewrite) : Interning Bytes := do
  let assembled ← assemble rewrite.body.code
  let original ← assembled.resolveHandlers rewrite.body.tryBlocks.toList
  let injected ← assembled.resolveHandlers rewrite.ledger.handlers.toList
  let target := rewrite.target
  assembled.encode rewrite.finalMaxStack rewrite.finalMaxLocals
    (HandlerEntry.merge original injected)
    (if target.options.emitsFrames target.major then some rewrite.body.frames.toList else none)
    (if target.options.dropDebugTables then [] else rewrite.body.declared.toList)

/-- The outcome of the method handed to the class. -/
def settle (rewrite : MethodRewrite) : RewriteTarget :=
  let target := rewrite.target
  let failed (pool : ConstantPool) (cause : InstrumentError) : RewriteTarget :=
    { target with
      pool := pool
      failure :=
        some (target.failure.getD (rewrite.method.name ++ rewrite.method.descriptor, cause)) }
  match rewrite.fault with
  | some cause => failed target.pool cause
  | none =>
    match rewrite.serialize target.pool with
    | (.ok payload, pool) =>
      { target with pool := pool, rewritten := (rewrite.method.index, payload) :: target.rewritten }
    | (.error cause, pool) => failed pool (.write cause)

/-- The end of the method.  Methods without code have no outcome, and a method that nothing went
wrong in and nothing was injected into keeps its code. -/
def close (rewrite : MethodRewrite) : MethodRewrite :=
  if !rewrite.hasCode then rewrite
  else
    match rewrite.ledger.beginClose with
    | .error cause => rewrite.fail cause
    | .ok ledger =>
      let closed := ledger.finishClose
      -- A rewrite that failed is settled even without injected code: the class is told its fault.
      if rewrite.fault.isNone && !rewrite.injected then { rewrite with ledger := closed }
      else { rewrite with target := rewrite.settle, ledger := closed, fault := none }

/-- One event, of the method or of injected code. -/
def step (rewrite : MethodRewrite) : MethodEvent → MethodRewrite
  | .sizes maxStack maxLocals =>
    { rewrite with
      hasCode := true
      originalMaxStack := maxStack
      originalMaxLocals := maxLocals
      ledger := rewrite.ledger.reserve maxLocals }
  | .frame locals stack => rewrite.originalFrame locals stack
  | .label label => rewrite.placeLabel label
  | .line number start => { rewrite with body := rewrite.body.add (.line number start) }
  | .tryBlock block =>
    addRange { rewrite with body := rewrite.body.add (.tryBlock block) } block
  | .variable declared => { rewrite with body := rewrite.body.add (.variable declared) }
  | .insn insn => rewrite.instruction insn
  | .maxs maxStack maxLocals =>
    { rewrite with
      originalMaxStack := max rewrite.originalMaxStack maxStack
      originalMaxLocals := max rewrite.originalMaxLocals maxLocals }
  | .finish => rewrite.close

/-! ## Requests of injected code -/

/-- The result of a request, its fault kept. -/
def keepFault {α : Type} :
    Except InstrumentError α × MethodRewrite → Except InstrumentError α × MethodRewrite
  | (.ok value, rewrite) => (.ok value, rewrite)
  | (.error cause, rewrite) => (.error cause, rewrite.fail cause)

def inject (rewrite : MethodRewrite) (event : MethodEvent) : MethodRewrite :=
  { rewrite with injected := true }.step event

def allocate (rewrite : MethodRewrite) (type : ValueType) :
    Except InstrumentError UInt16 × MethodRewrite :=
  let rewrite := { rewrite with injected := true }
  keepFault <| match rewrite.ledger.allocate type with
    | .ok (slot, ledger) => (.ok slot, { rewrite with ledger := ledger })
    | .error cause => (.error cause, rewrite)

/-- The value on top of the stack, moved to a slot of its own. -/
def storeNew (rewrite : MethodRewrite) (type : ValueType) :
    Except InstrumentError UInt16 × MethodRewrite :=
  match rewrite.allocate type with
  | (.ok slot, rewrite) => (.ok slot, rewrite.instruction (.var type.storeOpcode slot))
  | (.error cause, rewrite) => (.error cause, rewrite)

def addHandler (rewrite : MethodRewrite) (block : TryBlock) :
    Except InstrumentError Unit × MethodRewrite :=
  let rewrite := { rewrite with injected := true }
  keepFault <| match rewrite.ledger.addHandler block with
    | .ok ledger => (.ok (), addRange { rewrite with ledger := ledger } block)
    | .error cause => (.error cause, rewrite)

def askFrame (rewrite : MethodRewrite) (label : Label) (wanted : FrameRequest) :
    Except InstrumentError Unit × MethodRewrite :=
  keepFault (rewrite.requestFrame label wanted)

end MethodRewrite

end ClassWeave
