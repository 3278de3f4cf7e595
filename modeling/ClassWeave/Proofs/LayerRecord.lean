/-
# ClassWeave.Proofs.LayerRecord -- everything that reaches a method, written down

Probe code is a program: what it asks for next depends on the answers it has got.
`Injection.requests` writes down what it does ask for, `Layer.deedRequests` what a layer
asks for around it, and `Layer.record` all actions of a run of layers in their order,
the events of the method among them.  The run is its record carried out
(`Layer.runAll_record`), so what is known of actions is known of layers, probe code
and all.
-/
import ClassWeave.Proofs.LayerIsolation
import ClassWeave.Proofs.RewriteTrace

set_option autoImplicit false

namespace ClassWeave

open Outcome

/-! ## Probe code -/

namespace Injection

/-- What the code asks for, given the answers it gets. -/
def requests : Injection → MethodRewrite → List Request
  | done, _ | fail _, _ => []
  | newLabel next, rewrite =>
    .label :: (next rewrite.freshLabel.1).requests rewrite.freshLabel.2
  | allocate type next, rewrite =>
    .slot type :: (next (rewrite.allocate type).1).requests (rewrite.allocate type).2
  | storeNew type next, rewrite =>
    .store type :: (next (rewrite.storeNew type).1).requests (rewrite.storeNew type).2
  | handler block next, rewrite =>
    .handler block :: (next (rewrite.addHandler block).1).requests (rewrite.addHandler block).2
  | frame label wanted next, rewrite =>
    .frame label wanted ::
      (next (rewrite.askFrame label wanted).1).requests (rewrite.askFrame label wanted).2
  | report cause next, rewrite => .fault cause :: next.requests (rewrite.fail cause)
  | emit event next, rewrite => .event event :: next.requests (rewrite.inject event)

theorem foldl_requests : ∀ (code : Injection) (rewrite : MethodRewrite),
    (code.requests rewrite).foldl MethodRewrite.perform rewrite = (code.run rewrite).2
  | done, _ | fail _, _ => rfl
  | newLabel next, _ | allocate _ next, _ | storeNew _ next, _ | handler _ next, _
  | frame _ _ next, _ => foldl_requests (next _) _
  | report _ next, _ | emit _ next, _ => foldl_requests next _

end Injection

/-! ## Layers -/

namespace Layer

/-- The report of a request that was answered by a fault. -/
def reports {α : Type} (answer : Except InstrumentError α) : List Injection.Request :=
  (cause? answer).toList.map .fault

def fireRequests (layer : Layer) (valueSlot : Option UInt16) (rewrite : MethodRewrite) :
    List Injection.Request :=
  let code := layer.probe.code
    ⟨rewrite.target.className, layer.probe.location, layer.method, valueSlot⟩
  code.requests rewrite ++ reports (code.run rewrite).1

def captureRequests (type : ValueType) (rewrite : MethodRewrite) : List Injection.Request :=
  let copy := if type.size = 2 then Opcode.dup2 else Opcode.dup
  .event (.insn (.simple copy)) :: .store type ::
    reports ((rewrite.inject (.insn (.simple copy))).storeNew type).1

def fireWithRequests (layer : Layer) (type : ValueType) (rewrite : MethodRewrite) :
    List Injection.Request :=
  captureRequests type rewrite
    ++ layer.fireRequests (capture type rewrite).1 (capture type rewrite).2

def closeRangeRequests (layer : Layer) (start : Label) (rewrite : MethodRewrite) :
    List Injection.Request :=
  let (stop, rewrite) := rewrite.freshLabel
  let (handler, rewrite) := rewrite.freshLabel
  let rewrite := (rewrite.inject (.label stop)).inject (.label handler)
  [.label, .label, .event (.label stop), .event (.label handler),
    .handler ⟨start, stop, handler, none⟩] ++
  match rewrite.addHandler ⟨start, stop, handler, none⟩ with
  | (.error cause, _) => [.fault cause]
  | (.ok (), rewrite) =>
    .frame handler (.replace [.object ClassName.throwable]) ::
    match rewrite.askFrame handler (.replace [.object ClassName.throwable]) with
    | (.error cause, _) => [.fault cause]
    | (.ok (), rewrite) =>
      layer.fireWithRequests ValueType.throwable rewrite
        ++ [.event (.insn (.simple Opcode.athrow))]

/-- What a deed comes to the method as. -/
def deedRequests (layer : Layer) (rewrite : MethodRewrite) : Deed → List Injection.Request
  | .fire none => layer.fireRequests none rewrite
  | .fire (some type) => layer.fireWithRequests type rewrite
  | .openRange => [.label, .event (.label rewrite.freshLabel.1)]
  | .closeRange =>
    match layer.watch with
    | .error _ (some start) => layer.closeRangeRequests start rewrite
    | _ => []

variable (layer : Layer) (rewrite : MethodRewrite)

theorem foldl_fireRequests (valueSlot : Option UInt16) :
    (layer.fireRequests valueSlot rewrite).foldl MethodRewrite.perform rewrite =
      layer.fire valueSlot rewrite := by
  unfold fireRequests fire
  simp only [List.foldl_append, Injection.foldl_requests]
  split
  · rename_i after ran
    rw [ran]
    rfl
  · rename_i cause after ran
    rw [ran]
    rfl

theorem foldl_captureRequests (type : ValueType) :
    (captureRequests type rewrite).foldl MethodRewrite.perform rewrite =
      (capture type rewrite).2 := by
  let copy : Opcode := if type.size = 2 then Opcode.dup2 else Opcode.dup
  show (reports ((rewrite.inject (.insn (.simple copy))).storeNew type).1).foldl
    MethodRewrite.perform ((rewrite.inject (.insn (.simple copy))).storeNew type).2 = _
  unfold capture
  simp only [copy]
  rcases (rewrite.inject (.insn (.simple (if type.size = 2 then Opcode.dup2 else
    Opcode.dup)))).storeNew type with ⟨_ | _, after⟩ <;> rfl

theorem foldl_fireWithRequests (type : ValueType) :
    (layer.fireWithRequests type rewrite).foldl MethodRewrite.perform rewrite =
      layer.fireWith type rewrite := by
  unfold fireWithRequests fireWith
  rw [List.foldl_append, foldl_captureRequests, foldl_fireRequests]

theorem foldl_closeRangeRequests (start : Label) :
    (layer.closeRangeRequests start rewrite).foldl MethodRewrite.perform rewrite =
      layer.closeRange start rewrite := by
  unfold closeRangeRequests closeRange
  simp only [List.foldl_append, List.foldl_cons, List.foldl_nil, MethodRewrite.perform]
  generalize rewrite.freshLabel.2.freshLabel.1 = handler
  generalize (rewrite.freshLabel.2.freshLabel.2.inject _).inject _ = placed
  rcases placed.addHandler ⟨start, rewrite.freshLabel.1, handler, none⟩ with ⟨cause | _, after⟩
  · rfl
  · simp only [List.foldl_cons, MethodRewrite.perform]
    rcases after.askFrame handler (.replace [.object ClassName.throwable]) with ⟨cause | _, last⟩
    · rfl
    · simp only [List.foldl_append, foldl_fireWithRequests]
      rfl

theorem foldl_deedRequests (deed : Deed) :
    (layer.deedRequests rewrite deed).foldl MethodRewrite.perform rewrite =
      (layer.perform rewrite deed).2 := by
  obtain ⟨probe, method, watch⟩ := layer
  rcases deed with (_ | type) | _ | _
  · exact foldl_fireRequests _ rewrite none
  · exact foldl_fireWithRequests _ rewrite type
  · rfl
  · rcases watch with _ | _ | ⟨_, _ | start⟩ | _ | _ | _ <;> first
      | rfl
      | exact foldl_closeRangeRequests _ rewrite start

end Layer

/-! ## Runs of layers -/

namespace Happening

/-- What a happening does to the method, as actions. -/
def actions (state : List Layer × MethodRewrite) : Happening → List Action
  | .meets _ _ => []
  | .does layer deed =>
    match state.1[layer]? with
    | none => []
    | some doer => (doer.deedRequests state.2 deed).map .request
  | .own event => [.own event]

/-- All that is done to the method when happenings are carried out. -/
def record : List Happening → List Layer × MethodRewrite → List Action
  | [], _ => []
  | happening :: told, state =>
    happening.actions state ++ record told (happen state happening)

theorem record_append (early late : List Happening) :
    ∀ state : List Layer × MethodRewrite,
      record (early ++ late) state =
        record early state ++ record late (early.foldl happen state) := by
  induction early with
  | nil => exact fun _ => rfl
  | cons happening early ih =>
    intro state
    rw [List.cons_append, record, ih, record, List.append_assoc, List.foldl_cons]

theorem foldl_actions (state : List Layer × MethodRewrite) (happening : Happening) :
    (happening.actions state).foldl MethodRewrite.act state.2 = (happen state happening).2 := by
  cases happening with
  | meets | own => rfl
  | does layer deed =>
    simp only [actions, happen]
    cases state.1[layer]? with
    | none => rfl
    | some doer =>
      simp only [List.foldl_map]
      exact Layer.foldl_deedRequests doer state.2 deed

theorem foldl_record : ∀ (told : List Happening) (state : List Layer × MethodRewrite),
    (record told state).foldl MethodRewrite.act state.2 = (told.foldl happen state).2
  | [], _ => rfl
  | happening :: told, state => by
    rw [record, List.foldl_append, foldl_actions, List.foldl_cons]
    exact foldl_record told (happen state happening)

theorem own_record : ∀ (told : List Happening) (state : List Layer × MethodRewrite),
    (record told state).filterMap Action.own? = told.filterMap own?
  | [], _ => rfl
  | happening :: told, state => by
    rw [record, List.filterMap_append, own_record told (happen state happening)]
    cases happening with
    | meets | own => rfl
    | does layer deed =>
      simp only [actions]
      split
      · rfl
      · rw [Action.own?_requests]
        rfl

end Happening

/-- The actions of a run of layers over the events of a method. -/
def Layer.record (layers : List Layer) (events : List MethodEvent) (rewrite : MethodRewrite) :
    List Action :=
  Happening.record (Lookout.history (layers.map lookout) events) (layers, rewrite)

/-- **A run of layers is its record carried out.** -/
theorem Layer.runAll_record (layers : List Layer) (events : List MethodEvent)
    (rewrite : MethodRewrite) :
    (runAll layers events rewrite).2 =
      (record layers events rewrite).foldl MethodRewrite.act rewrite := by
  rw [runAll_history]
  exact (Happening.foldl_record _ (layers, rewrite)).symm

theorem Layer.record_cons (layers : List Layer) (event : MethodEvent) (events : List MethodEvent)
    (rewrite : MethodRewrite) :
    record layers (event :: events) rewrite =
      Happening.record (Lookout.turn event (layers.map lookout)) (layers, rewrite) ++
        record (stepAll layers event rewrite).1 events (stepAll layers event rewrite).2 := by
  obtain ⟨turned, past⟩ := stepAll_turn event layers rewrite
  rw [record, Lookout.history, Happening.record_append, ← turned, record, past]

/-- What comes to the method first is not changed by what the layers see later. -/
theorem Layer.record_append (late : List MethodEvent) : ∀ (early : List MethodEvent)
    (layers : List Layer) (rewrite : MethodRewrite),
    record layers (early ++ late) rewrite = record layers early rewrite ++
      record (runAll layers early rewrite).1 late (runAll layers early rewrite).2
  | [], _, _ => rfl
  | event :: early, layers, rewrite => by
    rw [List.cons_append, record_cons, record_cons, record_append late early, List.append_assoc]
    rfl

/-- The events of the method are in the record, in their order and each once. -/
theorem Layer.own_record (layers : List Layer) (events : List MethodEvent)
    (rewrite : MethodRewrite) :
    (record layers events rewrite).filterMap Action.own? = events :=
  (Happening.own_record _ _).trans (Lookout.own_history _ events)

end ClassWeave
