/-
# ClassWeave.Rewrite.Layer -- a probe watching a method go by

A `Layer` is one probe at work on one method.  It sees every event of the method
itself and none of injected code, and does something before the event goes on
(`Layer.before`), after it (`Layer.after`), or nothing.  What it does goes to the
method being rewritten and to nobody else; so layers can be put one around the other
without getting in each other's way (`Layer.stepAll`).

A constructor is entered when it has called another constructor on the object under
construction, which `Prologue` finds by counting the objects that were created but
not constructed yet.
-/
import ClassWeave.Probe

set_option autoImplicit false

namespace ClassWeave

/-- The way to the call that makes the object of a constructor usable. -/
structure Prologue where
  waiting : Bool
  /-- Objects created on the way whose constructor has not been called. -/
  pending : Nat
deriving DecidableEq, Repr

namespace Prologue

def start (method : MethodContext) : Prologue := ⟨method.isConstructor, 0⟩

/-- Whether the instruction ends the prologue, and the prologue after it. -/
def step (prologue : Prologue) (insn : Instruction) : Bool × Prologue :=
  if !prologue.waiting then (false, prologue)
  else match insn with
    | .type op _ =>
      if op = Opcode.new then (false, { prologue with pending := prologue.pending + 1 })
      else (false, prologue)
    | .method op target _ =>
      if op = Opcode.invokespecial ∧ target.name = constructorName then
        match prologue.pending with
        | 0 => (true, { prologue with waiting := false })
        | pending + 1 => (false, { prologue with pending := pending })
      else (false, prologue)
    | _ => (false, prologue)

end Prologue

/-- What a layer remembers, by the kind of its location. -/
inductive Watch
  /-- Fires on entry to the method. -/
  | entry (prologue : Prologue)
  /-- Fires before each return, with the returned value. -/
  | result (type : ValueType)
  /-- Fires when an exception leaves the method; `start` is where the covered range began. -/
  | error (prologue : Prologue) (start : Option Label)
  /-- Fires before the first instruction after a line marker that asks for it. -/
  | line (pending : Bool) (last : Option UInt16)
  /-- Fires before the first instruction of each handler of the method. -/
  | handler (handlers : List Label) (pending : Bool)
  /-- Fires at each instruction the location matches. -/
  | anchored

structure Layer where
  probe : Probe
  method : MethodContext
  watch : Watch

namespace Layer

def start (probe : Probe) (method : MethodContext) : Layer :=
  let watch := match probe.location.kind with
    | .entry => Watch.entry (Prologue.start method)
    | .return =>
      .result (((MethodType.parse? method.descriptor).map MethodType.result).getD .void)
    | .error => .error (Prologue.start method) none
    | .line => .line false none
    | .catch => .handler [] false
    | _ => .anchored
  ⟨probe, method, watch⟩

/-- The probe's code, its fault reported. -/
def fire (layer : Layer) (valueSlot : Option UInt16) (rewrite : MethodRewrite) : MethodRewrite :=
  let site : Site :=
    ⟨rewrite.target.className, layer.probe.location, layer.method, valueSlot⟩
  match (layer.probe.code site).run rewrite with
  | (.ok (), rewrite) => rewrite
  | (.error cause, rewrite) => rewrite.fail cause

/-- The value on top of the stack copied to a slot of its own. -/
def capture (type : ValueType) (rewrite : MethodRewrite) : Option UInt16 × MethodRewrite :=
  let copy := if type.size = 2 then Opcode.dup2 else Opcode.dup
  match (rewrite.inject (.insn (.simple copy))).storeNew type with
  | (.ok slot, rewrite) => (some slot, rewrite)
  | (.error cause, rewrite) => (none, rewrite.fail cause)

/-- The probe's code, with the value on top of the stack kept for it. -/
def fireWith (layer : Layer) (type : ValueType) (rewrite : MethodRewrite) : MethodRewrite :=
  let (slot, rewrite) := capture type rewrite
  layer.fire slot rewrite

/-- A label at the start of the range that an error layer covers. -/
def openRange (rewrite : MethodRewrite) : Label × MethodRewrite :=
  let (label, rewrite) := rewrite.freshLabel
  (label, rewrite.inject (.label label))

/-- The end of the covered range, and a handler that fires and throws the exception on. -/
def closeRange (layer : Layer) (start : Label) (rewrite : MethodRewrite) : MethodRewrite :=
  let (stop, rewrite) := rewrite.freshLabel
  let (handler, rewrite) := rewrite.freshLabel
  -- The range ends where its handler starts, so it does not cover the handler.
  let rewrite := (rewrite.inject (.label stop)).inject (.label handler)
  match rewrite.addHandler ⟨start, stop, handler, none⟩ with
  | (.error cause, rewrite) => rewrite.fail cause
  | (.ok (), rewrite) =>
    match rewrite.askFrame handler (.replace [.object ClassName.throwable]) with
    | (.error cause, rewrite) => rewrite.fail cause
    | (.ok (), rewrite) =>
      (layer.fireWith ValueType.throwable rewrite).inject (.insn (.simple Opcode.athrow))

/-- Whether a line marker asks for the probe, after a marker for the line `last`. -/
def lineFires (location : Location) (last : Option UInt16) (number : UInt16) : Bool :=
  match location.side with
  | .before => location.allowsLine number
  | .after => last.any fun previous => previous != number && location.allowsLine previous

/-- Whether the probe fires after a matching instruction, and not before it. -/
def firesAfter (location : Location) (insn : Instruction) : Bool :=
  location.side == .after && !insn.opcode.endsFlow

/-- The type of what a call leaves on the stack. -/
def callResult? (insn : Instruction) : Option ValueType :=
  let descriptor? := match insn with
    | .method _ target _ => some target.descriptor
    | .invokeDynamic _ _ descriptor => some descriptor
    | _ => none
  ((descriptor?.bind MethodType.parse?).map MethodType.result).filter (· != .void)

/-- What the layer does before an event goes on. -/
def before (layer : Layer) (event : MethodEvent) (rewrite : MethodRewrite) :
    Layer × MethodRewrite :=
  match layer.watch, event with
  | .result type, .insn insn =>
    if insn.opcode.isReturn then
      (layer, if type = .void then layer.fire none rewrite else layer.fireWith type rewrite)
    else (layer, rewrite)
  | .error prologue (some start), .maxs _ _ =>
    ({ layer with watch := .error prologue none }, layer.closeRange start rewrite)
  | .line pending last, .line number _ =>
    let pending := pending || lineFires layer.probe.location last number
    ({ layer with watch := .line pending (some number) }, rewrite)
  | .line true last, .insn _ =>
    ({ layer with watch := .line false last }, layer.fire none rewrite)
  | .handler handlers pending, .tryBlock block =>
    ({ layer with watch := .handler (block.handler :: handlers) pending }, rewrite)
  | .handler handlers pending, .label label =>
    ({ layer with watch := .handler handlers (pending || handlers.contains label) }, rewrite)
  | .handler handlers true, .insn _ =>
    ({ layer with watch := .handler handlers false },
      layer.fireWith ValueType.throwable rewrite)
  | .anchored, .insn insn =>
    if layer.probe.location.matches insn && !firesAfter layer.probe.location insn then
      (layer,
        -- What is thrown stands on the stack, and is kept for the code like a caught exception.
        if insn.opcode = Opcode.athrow then layer.fireWith ValueType.throwable rewrite
        else layer.fire none rewrite)
    else (layer, rewrite)
  | _, _ => (layer, rewrite)

/-- What the layer does after an event has gone on. -/
def after (layer : Layer) (event : MethodEvent) (rewrite : MethodRewrite) :
    Layer × MethodRewrite :=
  match layer.watch, event with
  | .entry prologue, .sizes _ _ =>
    (layer, if prologue.waiting then rewrite else layer.fire none rewrite)
  | .entry prologue, .insn insn =>
    let (completes, prologue) := prologue.step insn
    ({ layer with watch := .entry prologue },
      if completes then layer.fire none rewrite else rewrite)
  | .error prologue _, .sizes _ _ =>
    if prologue.waiting then (layer, rewrite)
    else
      let (label, rewrite) := openRange rewrite
      ({ layer with watch := .error prologue (some label) }, rewrite)
  | .error prologue start, .insn insn =>
    let (completes, prologue) := prologue.step insn
    if completes then
      let (label, rewrite) := openRange rewrite
      ({ layer with watch := .error prologue (some label) }, rewrite)
    else ({ layer with watch := .error prologue start }, rewrite)
  | .anchored, .insn insn =>
    if layer.probe.location.matches insn && firesAfter layer.probe.location insn then
      (layer,
        match callResult? insn with
        | some type => layer.fireWith type rewrite
        | none => layer.fire none rewrite)
    else (layer, rewrite)
  | _, _ => (layer, rewrite)

/-- An event of the method on its way through all layers, the first one outermost. -/
def stepAll : List Layer → MethodEvent → MethodRewrite → List Layer × MethodRewrite
  | [], event, rewrite => ([], rewrite.step event)
  | layer :: rest, event, rewrite =>
    let (layer, rewrite) := layer.before event rewrite
    -- The inner layers are through with the event before this one sees it again.
    let (rest, rewrite) := stepAll rest event rewrite
    let (layer, rewrite) := layer.after event rewrite
    (layer :: rest, rewrite)

/-- All events of a method through the layers of its probes. -/
def runAll (layers : List Layer) (events : List MethodEvent) (rewrite : MethodRewrite) :
    List Layer × MethodRewrite :=
  events.foldl (fun (layers, rewrite) event => stepAll layers event rewrite) (layers, rewrite)

end Layer

end ClassWeave
