/-
# ClassWeave.Proofs.AnchoredOrder -- who fires first at an instruction

Layers stand around each other, the first one outermost.  What they do before an
instruction comes in their order, what they do after it in the opposite one.  Layers
that are anchored to single instructions remember nothing, so this is all there is to
say about them: `Layer.volley` are the requests of layers that fire in a row, each with
the state that those before it have left, and `Layer.around` puts an instruction between
two volleys.

`Layer.record_anchored` says what comes to the method at an instruction of its own.  An
instruction that ends control flow is no exception in the code of the layers, but nothing
fires after it: a layer that asks for that side fires before it, like the others.
-/
import ClassWeave.Proofs.LayerRecord

set_option autoImplicit false

namespace ClassWeave

namespace Layer

/-! ## Firing in a row -/

/-- What layers ask for that fire one after the other, each with the value on top kept for it if
that has a type here. -/
def volley (kept : Option ValueType) : List Layer → MethodRewrite → List Injection.Request
  | [], _ => []
  | layer :: rest, rewrite =>
    layer.deedRequests rewrite (.fire kept)
      ++ volley kept rest (layer.perform rewrite (.fire kept)).2

/-- An instruction, and the layers that fire before and after it. -/
def around (ahead behind : List Layer) (kept : Option ValueType) (insn : Instruction)
    (rewrite : MethodRewrite) : List Action :=
  let early := volley kept ahead rewrite
  let met := (early.foldl MethodRewrite.perform rewrite).step (.insn insn)
  early.map .request ++ .own (.insn insn) :: (volley (callResult? insn) behind met).map .request

variable {kept : Option ValueType}

theorem foldl_volley_cons (layer : Layer) (rest : List Layer) (rewrite : MethodRewrite) :
    (volley kept (layer :: rest) rewrite).foldl MethodRewrite.perform rewrite =
      (volley kept rest (layer.perform rewrite (.fire kept)).2).foldl MethodRewrite.perform
        (layer.perform rewrite (.fire kept)).2 := by
  rw [volley, List.foldl_append, foldl_deedRequests]

theorem volley_append (first second : List Layer) : ∀ rewrite : MethodRewrite,
    volley kept (first ++ second) rewrite = volley kept first rewrite
      ++ volley kept second ((volley kept first rewrite).foldl MethodRewrite.perform rewrite) := by
  induction first with
  | nil => exact fun _ => rfl
  | cons layer first ih =>
    intro rewrite
    rw [foldl_volley_cons, List.cons_append, volley, ih, volley, List.append_assoc]

/-- One layer more around the others: it fires before them and after them. -/
theorem around_append (kept : Option ValueType) (first ahead behind last : List Layer)
    (insn : Instruction) (rewrite : MethodRewrite) :
    let reached := (volley kept first rewrite).foldl MethodRewrite.perform rewrite
    let inner := around ahead behind kept insn reached
    around (first ++ ahead) (behind ++ last) kept insn rewrite =
      (volley kept first rewrite).map .request ++ (inner ++
        (volley (callResult? insn) last (inner.foldl MethodRewrite.act reached)).map .request) := by
  intro reached inner
  have left : inner.foldl MethodRewrite.act reached =
      (volley (callResult? insn) behind (((volley kept ahead reached).foldl MethodRewrite.perform
        reached).step (.insn insn))).foldl MethodRewrite.perform
        (((volley kept ahead reached).foldl MethodRewrite.perform reached).step (.insn insn)) := by
    simp only [inner, around, List.foldl_append, List.foldl_cons, List.foldl_map]
    rfl
  rw [left]
  simp only [inner, around, volley_append, List.foldl_append, List.map_append, List.append_assoc,
    List.cons_append, reached]

/-! ## Layers that are anchored -/

/-- Whether the layer fires at the instruction, and on which side. -/
def firesAt (side : Side) (insn : Instruction) (layer : Layer) : Bool :=
  layer.probe.location.matches insn && (firesAfter layer.probe.location insn == (side == .after))

/-- What is kept for a layer that fires before the instruction. -/
def keptBefore (insn : Instruction) : Option ValueType :=
  if insn.opcode = Opcode.athrow then some ValueType.throwable else none

variable {layer : Layer} {layers : List Layer} {event : MethodEvent}

theorem early_of_anchored (anchored : layer.watch = .anchored) (insn : Instruction) :
    layer.early (.insn insn) =
      if layer.firesAt .before insn then some (.fire (keptBefore insn)) else none := by
  unfold early firesAt keptBefore
  rw [anchored, Watch.early]
  cases firesAfter layer.probe.location insn <;> rfl

theorem late_of_anchored (anchored : layer.watch = .anchored) (insn : Instruction) :
    layer.late (.insn insn) =
      if layer.firesAt .after insn then some (.fire (callResult? insn)) else none := by
  unfold late firesAt
  rw [anchored, Watch.late]
  cases firesAfter layer.probe.location insn <;> rfl

/-- An anchored layer remembers nothing of an event. -/
theorem meet_of_anchored (anchored : layer.watch = .anchored) (event : MethodEvent) :
    layer.meet event = layer := by
  obtain ⟨probe, method, watch⟩ := layer
  cases anchored
  cases event <;> rfl

end Layer

/-! ## What comes to the method -/

namespace Happening

variable (layer : Layer) (rest : List Layer) (rewrite : MethodRewrite)

/-- What the layers further in do is written down as if the outermost one was not there. -/
theorem record_within (told : List Happening) : ∀ (rest : List Layer) (rewrite : MethodRewrite),
    record (told.map within) (layer :: rest, rewrite) = record told (rest, rewrite) := by
  induction told with
  | nil => exact fun _ _ => rfl
  | cons happening told ih =>
    intro rest rewrite
    have same : happening.within.actions (layer :: rest, rewrite) =
        happening.actions (rest, rewrite) := by
      cases happening <;> rfl
    rw [List.map_cons, record, record, same, happen_within, ih]

/-- The outermost layer fires, or does nothing. -/
def outermost (fires : Bool) (kept : Option ValueType) : List Happening :=
  (if fires then some (Deed.fire kept) else none).toList.map (.does 0)

theorem record_outermost (fires : Bool) (kept : Option ValueType) :
    record (outermost fires kept) (layer :: rest, rewrite) =
      (Layer.volley kept ([layer].filter fun _ => fires) rewrite).map .request := by
  cases fires with
  | false => rfl
  | true => simp [outermost, record, actions, Layer.volley]

theorem foldl_outermost (fires : Bool) (kept : Option ValueType) :
    (outermost fires kept).foldl happen (layer :: rest, rewrite) =
      (layer :: rest, (Layer.volley kept ([layer].filter fun _ => fires) rewrite).foldl
        MethodRewrite.perform rewrite) := by
  cases fires with
  | false => rfl
  | true =>
    rw [outermost, foldl_happen_does]
    simp [Layer.perform?, Layer.volley, Layer.foldl_deedRequests]

end Happening

namespace Layer

variable {layer : Layer} {layers : List Layer}

theorem filter_cons_eq (fires : Layer → Bool) (rest : List Layer) :
    (layer :: rest).filter fires = ([layer].filter fun _ => fires layer) ++ rest.filter fires :=
  List.filter_append (p := fires) [layer] rest

theorem reverse_filter_single (fires : Bool) :
    ([layer].filter fun _ => fires).reverse = [layer].filter fun _ => fires := by
  cases fires <;> rfl

/-- An instruction goes through one anchored layer more: it does not notice what the others do. -/
theorem turn_cons (insn : Instruction) (own : layer.watch = .anchored) (rest : List Layer) :
    Lookout.turn (.insn insn) ((layer :: rest).map lookout) =
      .meets 0 (.insn insn) :: (Happening.outermost (layer.firesAt .before insn) (keptBefore insn)
        ++ ((Lookout.turn (.insn insn) (rest.map lookout)).map .within
          ++ Happening.outermost (layer.firesAt .after insn) (callResult? insn))) := by
  simp only [List.map_cons, Lookout.turn, early_lookout, late_lookout, early_of_anchored own,
    late_of_anchored own, List.cons_append, List.append_assoc, Happening.outermost]

/-- The turn of an instruction: those that fire before it in their order, then the instruction,
then those that fire after it in the opposite order. -/
theorem record_turn (insn : Instruction) : ∀ (layers : List Layer),
    (∀ layer ∈ layers, layer.watch = .anchored) → ∀ rewrite : MethodRewrite,
    let here := around (layers.filter (firesAt .before insn))
      (layers.filter (firesAt .after insn)).reverse (keptBefore insn) insn rewrite
    let turn := Lookout.turn (.insn insn) (layers.map lookout)
    Happening.record turn (layers, rewrite) = here ∧
      turn.foldl Happening.happen (layers, rewrite) =
        (layers, here.foldl MethodRewrite.act rewrite)
  | [], _, _ => ⟨rfl, rfl⟩
  | layer :: rest, anchored, rewrite => by
    intro here turn
    have own : layer.watch = .anchored := anchored layer List.mem_cons_self
    let first := [layer].filter fun _ => layer.firesAt .before insn
    let last := [layer].filter fun _ => layer.firesAt .after insn
    let reached := (volley (keptBefore insn) first rewrite).foldl MethodRewrite.perform rewrite
    obtain ⟨inner, left⟩ := record_turn insn rest
      (fun other among => anchored other (List.mem_cons_of_mem _ among)) reached
    have met : Happening.happen (layer :: rest, rewrite) (.meets 0 (.insn insn)) =
        (layer :: rest, rewrite) := by
      show (layer.meet (.insn insn) :: rest, rewrite) = (layer :: rest, rewrite)
      rw [meet_of_anchored own]
    have layered := around_append (keptBefore insn) first
      (rest.filter (firesAt .before insn)) (rest.filter (firesAt .after insn)).reverse last insn
      rewrite
    have whole : here = around (first ++ rest.filter (firesAt .before insn))
        ((rest.filter (firesAt .after insn)).reverse ++ last) (keptBefore insn) insn rewrite := by
      simp only [here]
      rw [filter_cons_eq (firesAt .before insn) rest, filter_cons_eq (firesAt .after insn) rest,
        List.reverse_append, reverse_filter_single]
    constructor
    · simp only [turn, turn_cons insn own, Happening.record, Happening.actions, List.nil_append,
        met, Happening.record_append, Happening.record_outermost, Happening.record_within,
        Happening.foldl_outermost, Happening.foldl_happen_within]
      rw [inner, left, whole, layered]
    · simp only [turn, turn_cons insn own, List.foldl_cons, met, List.foldl_append,
        Happening.foldl_outermost, Happening.foldl_happen_within]
      rw [left, whole, layered]
      simp only [List.foldl_append, List.foldl_map]
      rfl

theorem watch_start {probe : Probe} (method : MethodContext)
    (anchored : probe.location.anchored = true) : (start probe method).watch = .anchored := by
  obtain ⟨_, _, _, ⟨_, _, _, _, _, kind, _⟩, _⟩ := probe
  cases kind <;> first | rfl | cases anchored

theorem before_anchored (anchored : layer.watch = .anchored) (event : MethodEvent)
    (rewrite : MethodRewrite) : (layer.before event rewrite).1 = layer := by
  obtain ⟨probe, method, watch⟩ := layer
  cases anchored
  cases event <;> try rfl
  simp only [before]
  split <;> rfl

theorem after_anchored (anchored : layer.watch = .anchored) (event : MethodEvent)
    (rewrite : MethodRewrite) : (layer.after event rewrite).1 = layer := by
  obtain ⟨probe, method, watch⟩ := layer
  cases anchored
  cases event <;> try rfl
  simp only [after]
  split <;> rfl

/-- Events go by anchored layers and leave them as they were. -/
theorem stepAll_anchored (event : MethodEvent) : ∀ (layers : List Layer),
    (∀ layer ∈ layers, layer.watch = .anchored) → ∀ rewrite : MethodRewrite,
    (stepAll layers event rewrite).1 = layers
  | [], _, _ => rfl
  | layer :: rest, anchored, rewrite => by
    have own : layer.watch = .anchored := anchored layer List.mem_cons_self
    let rewrite' := (layer.before event rewrite).2
    have inner : (stepAll rest event rewrite').1 = rest :=
      stepAll_anchored event rest
        (fun other among => anchored other (List.mem_cons_of_mem _ among)) rewrite'
    have step : (stepAll (layer :: rest) event rewrite).1 =
        ((layer.before event rewrite).1.after event (stepAll rest event rewrite').2).1
          :: (stepAll rest event rewrite').1 := rfl
    rw [step, before_anchored own, after_anchored own, inner]

theorem runAll_anchored (anchored : ∀ layer ∈ layers, layer.watch = .anchored) :
    ∀ (events : List MethodEvent) (rewrite : MethodRewrite),
    (runAll layers events rewrite).1 = layers
  | [], _ => rfl
  | event :: events, rewrite => by
    show (runAll (stepAll layers event rewrite).1 events (stepAll layers event rewrite).2).1 = _
    rw [stepAll_anchored event layers anchored]
    exact runAll_anchored anchored events _

/-! ## An instruction and all that happens at it -/

/-- What comes to the method at an instruction of its own. -/
def atInstruction (insn : Instruction) (layers : List Layer) (rewrite : MethodRewrite) :
    List Action :=
  let matching := layers.filter fun layer => layer.probe.location.matches insn
  let on (side : Side) := matching.filter fun layer => layer.probe.location.side == side
  if insn.opcode.endsFlow then around matching [] (keptBefore insn) insn rewrite
  else around (on .before) (on .after).reverse none insn rewrite

theorem atInstruction_eq (insn : Instruction) (layers : List Layer) (rewrite : MethodRewrite) :
    around (layers.filter (firesAt .before insn)) (layers.filter (firesAt .after insn)).reverse
      (keptBefore insn) insn rewrite = atInstruction insn layers rewrite := by
  unfold atInstruction
  simp only [List.filter_filter]
  by_cases ends : insn.opcode.endsFlow = true
  -- Control does not come out of the instruction, so whatever matches fires ahead of it.
  · have never (location : Location) : firesAfter location insn = false := by
      simp only [firesAfter, ends, Bool.not_true, Bool.and_false]
    have ahead : firesAt .before insn = fun layer => layer.probe.location.matches insn := by
      funext layer
      simp only [firesAt, never, show (Side.before == Side.after) = false from rfl, BEq.rfl,
        Bool.and_true]
    have behind : firesAt .after insn = fun _ => false := by
      funext layer
      simp only [firesAt, never, BEq.rfl, show (false == true) = false from rfl, Bool.and_false]
    rw [if_pos ends, ahead, behind, List.filter_false, List.reverse_nil]
  -- Only a throw has its value kept ahead of it, and a throw ends the flow.
  · have kept : keptBefore insn = none := by
      refine if_neg fun throws => ends ?_
      rw [throws]
      rfl
    have sides (side : Side) : firesAt side insn = fun layer =>
        (layer.probe.location.side == side) && layer.probe.location.matches insn := by
      funext layer
      simp only [firesAt, firesAfter, ends, Bool.not_false, Bool.and_true]
      cases layer.probe.location.side <;> cases side <;>
        cases layer.probe.location.matches insn <;> rfl
    rw [if_neg ends, kept, sides, sides]

/-- What all instructions have in common after which no code is reached. -/
theorem atInstruction_terminal {insn : Instruction}
    (last : insn.opcode.endsFlow = true ∨ ∃ slot, insn = .var Opcode.ret slot)
    (layers : List Layer) (rewrite : MethodRewrite) :
    ∃ injected : List Injection.Request, atInstruction insn layers rewrite =
      injected.map .request ++ [.own (.insn insn)] := by
  unfold atInstruction
  rcases last with ends | ⟨slot, rfl⟩
  · exact ⟨_, if_pos ends⟩
  · have none_ (location : Location) : location.matches (.var Opcode.ret slot) = false := by
      cases kind : location.kind <;> simp only [Location.matches, kind]
    simp only [none_, List.filter_false, List.filter_nil]
    exact ⟨[], rfl⟩

/-- **At every instruction of the method, anchored probes emit their code around it.**  Those that
match and fire before it do in the order of the probes, then comes the instruction, then those that
fire after it in the opposite order; each with the value kept for it, if there is one, and in the
state that those before it have left.  At an instruction that ends control flow all that match fire
before it, and nothing is injected behind it. -/
theorem record_anchored {probes : List Probe}
    (anchored : ∀ probe ∈ probes, probe.location.anchored = true) (method : MethodContext)
    (insn : Instruction) (early late : List MethodEvent) (start : MethodRewrite) :
    let layers := probes.map fun probe => Layer.start probe method
    let rewrite := (record layers early start).foldl MethodRewrite.act start
    let here := atInstruction insn layers rewrite
    record layers (early ++ .insn insn :: late) start =
        record layers early start ++
          (here ++ record layers late (here.foldl MethodRewrite.act rewrite)) ∧
      ((insn.opcode.endsFlow = true ∨ ∃ slot, insn = .var Opcode.ret slot) →
        ∃ injected : List Injection.Request,
          here = injected.map .request ++ [.own (.insn insn)]) := by
  intro layers rewrite here
  have watching : ∀ layer ∈ layers, layer.watch = .anchored := by
    intro layer among
    obtain ⟨probe, known, rfl⟩ := List.mem_map.1 among
    exact watch_start method (anchored probe known)
  have reached : runAll layers early start = (layers, rewrite) :=
    Prod.ext (runAll_anchored watching early start) (runAll_record layers early start)
  obtain ⟨turn, left⟩ := record_turn insn layers watching rewrite
  rw [atInstruction_eq] at turn left
  have step : stepAll layers (.insn insn) rewrite =
      (layers, here.foldl MethodRewrite.act rewrite) := (stepAll_turn _ layers rewrite).1.trans left
  refine ⟨?_, fun last => atInstruction_terminal last layers rewrite⟩
  rw [record_append, reached, record_cons, turn, step]

end Layer

/-! ## Four probes at one call -/

namespace Sample

/-- A probe on one side of calls that leaves a mark. -/
def markedCall (side : Side) (mark : Opcode) : Probe :=
  ⟨"A", "", none, ⟨"", "", "", "", 0, .call, side⟩,
    Snippet.probeCode [.insn (.simple mark), .insn (.simple Opcode.pop)]⟩

def markedCalls : List Probe :=
  [markedCall .before Opcode.iconst0, markedCall .after Opcode.iconst5,
    markedCall .before Opcode.iconstM1, markedCall .after Opcode.aconstNull]

def counting : Instruction := .method Opcode.invokestatic ⟨"A", "count", "()I"⟩ false

def idle : MethodRewrite :=
  .start (.start "A" 49 (ConstantPool.ofEntries #[]) Hierarchy.flat Options.standard)
    ⟨0, 8, "m", "()V"⟩

end Sample

/-- The last probe stands next to the call, and each that fires after it keeps what it returns. -/
theorem Layer.record_anchored_marks :
    (∀ probe ∈ Sample.markedCalls, probe.location.anchored = true) ∧
    let layers := Sample.markedCalls.map fun probe => Layer.start probe Sample.idle.method
    let here := atInstruction Sample.counting layers Sample.idle
    record layers [.insn Sample.counting] Sample.idle = here ∧
      (here.foldl MethodRewrite.act Sample.idle).body.code.instructions =
        [.simple Opcode.iconst0, .simple Opcode.pop, .simple Opcode.iconstM1, .simple Opcode.pop,
          Sample.counting,
          .simple Opcode.dup, .var Opcode.istore 0, .simple Opcode.aconstNull, .simple Opcode.pop,
          .simple Opcode.dup, .var Opcode.istore 1, .simple Opcode.iconst5, .simple Opcode.pop] := by
  have anchored : ∀ probe ∈ Sample.markedCalls, probe.location.anchored = true := by
    decide +kernel
  refine ⟨anchored, ?_, by decide +kernel⟩
  have split := (record_anchored anchored Sample.idle.method Sample.counting [] [] Sample.idle).1
  exact split.trans (List.append_nil _)

end ClassWeave
