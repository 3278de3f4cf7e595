/-
# ClassWeave.Proofs.ErrorRanges -- ranges that layers put around a method

A layer for errors opens its range on entry to the method, before the first instruction
(`Layer.stepAll_opened`), and closes it at the end, behind the last one.  In between it
does nothing and stays as it is (`Layer.runAll_steady`).

`Layer.closings` are the requests of all these layers at the end of the method.  In the
record of the run nothing else comes between the instructions and the end
(`Layer.record_ended`).
-/
import ClassWeave.Proofs.AnchoredOrder
import ClassWeave.Proofs.AppendedCode

set_option autoImplicit false

namespace ClassWeave

open MethodRewrite (Adds)

/-- Neither the sizes that a method begins with, nor those at its end, nor the end. -/
def MethodEvent.Amid : MethodEvent → Prop
  | .sizes _ _ | .maxs _ _ | .finish => False
  | _ => True

theorem MethodEvent.Amid.plain {event : MethodEvent} (amid : event.Amid) :
    ¬ event.IsMaxs ∧ event ≠ .finish := by
  refine ⟨?_, ?_⟩
  · rintro ⟨_, _, rfl⟩
    exact amid
  · rintro rfl
    exact amid

theorem Prologue.step_of_done {prologue : Prologue} (done : prologue.waiting = false)
    (insn : Instruction) : prologue.step insn = (false, prologue) := by
  simp [step, done]

namespace Layer

variable {layer : Layer} {layers : List Layer} {event : MethodEvent}

/-! ## Layers for errors -/

/-- The layer is one for errors: it puts a range around the method. -/
def guarding (layer : Layer) : Bool :=
  match layer.watch with
  | .error _ _ => true
  | _ => false

/-- The layer can open its range on entry to the method. -/
def Ready (layer : Layer) : Prop :=
  ∀ prologue start, layer.watch = .error prologue start → prologue.waiting = false

theorem guarding_start (probe : Probe) (method : MethodContext) :
    (start probe method).guarding = (probe.location.kind == .error) := by
  obtain ⟨_, _, _, ⟨_, _, _, _, _, kind, _⟩, _⟩ := probe
  cases kind <;> rfl

theorem ready_start (probe : Probe) {method : MethodContext}
    (ordinary : method.isConstructor = false) : (start probe method).Ready := by
  obtain ⟨_, _, _, ⟨_, _, _, _, _, kind, _⟩, _⟩ := probe
  intro prologue begun same
  cases kind <;> cases same
  exact ordinary

theorem guarding_holding (start : Option Label) :
    (layer.holding start).guarding = layer.guarding := by
  obtain ⟨probe, method, watch⟩ := layer
  cases watch <;> rfl

theorem ready_holding (ready : layer.Ready) (start : Option Label) :
    (layer.holding start).Ready := by
  obtain ⟨probe, method, watch⟩ := layer
  cases watch <;> first
    | exact ready
    | rintro _ _ ⟨⟩
      exact ready _ _ rfl

theorem ready_of_filter (ready : ∀ other ∈ [layer].filter guarding, other.Ready) : layer.Ready := by
  intro prologue start watch
  have own : layer ∈ [layer].filter guarding :=
    List.mem_filter.2 ⟨List.mem_singleton.2 rfl, by simp only [guarding, watch]⟩
  exact ready layer own prologue start watch

theorem before_steady (amid : event.Amid) (rewrite : MethodRewrite) :
    [(layer.before event rewrite).1].filter guarding = [layer].filter guarding := by
  obtain ⟨probe, method, watch⟩ := layer
  rcases watch with prologue | type | ⟨prologue, _ | start⟩ | ⟨_ | _, last⟩ | ⟨handlers, _ | _⟩ | _ <;>
    cases event <;> try rfl
  case result.insn | anchored.insn =>
    simp only [before]
    split <;> rfl
  case error.some.maxs => exact amid.elim

theorem after_steady (amid : event.Amid) (ready : layer.Ready) (rewrite : MethodRewrite) :
    [(layer.after event rewrite).1].filter guarding = [layer].filter guarding := by
  obtain ⟨probe, method, watch⟩ := layer
  cases watch <;> cases event <;> try rfl
  case error.sizes => exact amid.elim
  case error.insn prologue start insn =>
    simp only [after, Prologue.step_of_done (ready prologue start rfl)]
    rfl
  case anchored.insn =>
    simp only [after]
    split <;> rfl

theorem stepAll_steady (amid : event.Amid) : ∀ {layers : List Layer},
    (∀ layer ∈ layers.filter guarding, layer.Ready) → ∀ rewrite : MethodRewrite,
    (stepAll layers event rewrite).1.filter guarding = layers.filter guarding
  | [], _, _ => rfl
  | layer :: rest, ready, rewrite => by
    rw [filter_cons_eq guarding rest] at ready ⊢
    have met : [(layer.before event rewrite).1].filter guarding = [layer].filter guarding :=
      before_steady amid rewrite
    have ready' : (layer.before event rewrite).1.Ready := ready_of_filter fun other among =>
      ready other (List.mem_append_left _ (met ▸ among))
    have others := stepAll_steady amid
      (fun other among => ready other (List.mem_append_right _ among)) (layer.before event rewrite).2
    rw [stepAll, filter_cons_eq guarding]
    exact congrArg₂ (· ++ ·) ((after_steady amid ready' _).trans met) others

/-- The layers for errors are the same after all events between entry and end. -/
theorem runAll_steady : ∀ {events : List MethodEvent} {layers : List Layer},
    (∀ event ∈ events, event.Amid) → (∀ layer ∈ layers.filter guarding, layer.Ready) →
    ∀ rewrite : MethodRewrite,
    (runAll layers events rewrite).1.filter guarding = layers.filter guarding
  | [], _, _, _, _ => rfl
  | event :: events, layers, amid, ready, rewrite => by
    have one := stepAll_steady (amid event List.mem_cons_self) ready rewrite
    have others := runAll_steady (fun other among => amid other (List.mem_cons_of_mem _ among))
      (one.symm ▸ ready) (stepAll layers event rewrite).2
    exact others.trans one

/-! ## Where ranges are opened -/

/-- The label is one of those that ranges begin at: it stands in the code, and was handed out. -/
structure Opens (rewrite : MethodRewrite) (label : Label) : Prop where
  placed : .label label ∈ rewrite.body.code
  fresh : label.isFresh = true
  known : ¬ label.Since rewrite

/-- The layer is one for errors and has its range open now. -/
structure Opened (rewrite : MethodRewrite) (before after : Layer) : Prop where
  guards : before.guarding = true
  opened : ∃ label, after = before.holding (some label) ∧ Opens rewrite label

theorem Opened.later {rewrite next : MethodRewrite} {before after : Layer}
    {kind : Label → Prop} {nodes : List Node} {blocks handlers : List TryBlock}
    (opened : Opened rewrite before after) (adds : Adds kind rewrite next nodes blocks handlers) :
    Opened next before after := by
  obtain ⟨guards, label, same, placed, fresh, known⟩ := opened
  refine ⟨guards, label, same, ?_, fresh, fun since => known (since.earlier adds.labels)⟩
  rw [adds.code]
  exact List.mem_append_left _ placed

theorem before_sizes (maxStack maxLocals : UInt16) (rewrite : MethodRewrite) :
    layer.before (.sizes maxStack maxLocals) rewrite = (layer, rewrite) := by
  obtain ⟨probe, method, watch⟩ := layer
  rcases watch with prologue | type | ⟨prologue, _ | start⟩ | ⟨_ | _, last⟩ | ⟨handlers, _ | _⟩ | _ <;>
    rfl

theorem openRange_opened (guards : layer.guarding = true) (rewrite : MethodRewrite) :
    Opened (openRange rewrite).2 layer (layer.holding (some (openRange rewrite).1)) := by
  have placed := rewrite.freshLabel.2.injectLabel_adds rewrite.freshLabel.1
  have handed : rewrite.nextLabel + 1 ≤ (openRange rewrite).2.nextLabel := placed.labels
  refine ⟨guards, _, rfl, ?_, rewrite.isFresh_freshLabel, ?_⟩
  · have code : (openRange rewrite).2.body.code = _ := placed.code
    rw [code]
    exact List.mem_append_right _ (List.mem_singleton.2 rfl)
  · intro since
    have low : Label.firstFresh + (openRange rewrite).2.nextLabel ≤
        Label.firstFresh + rewrite.nextLabel := since
    omega

theorem after_sizes_opened (ready : layer.Ready) (guards : layer.guarding = true)
    (maxStack maxLocals : UInt16) (rewrite : MethodRewrite) :
    Opened (layer.after (.sizes maxStack maxLocals) rewrite).2 layer
      (layer.after (.sizes maxStack maxLocals) rewrite).1 := by
  obtain ⟨probe, method, watch⟩ := layer
  cases watch <;> try cases guards
  case error prologue start =>
    have same : (Layer.mk probe method (.error prologue start)).after
        (.sizes maxStack maxLocals) rewrite =
          (holding ⟨probe, method, .error prologue start⟩ (some (openRange rewrite).1),
            (openRange rewrite).2) := by
      simp only [after, ready prologue start rfl]
      rfl
    rw [same]
    exact openRange_opened rfl rewrite

theorem after_sizes_other (other : layer.guarding = false)
    (maxStack maxLocals : UInt16) (rewrite : MethodRewrite) :
    (layer.after (.sizes maxStack maxLocals) rewrite).1.guarding = false := by
  obtain ⟨probe, method, watch⟩ := layer
  cases watch <;> first | rfl | cases other

/-- On entry all layers for errors open their ranges. -/
theorem stepAll_opened (maxStack maxLocals : UInt16) : ∀ {layers : List Layer},
    (∀ layer ∈ layers, layer.probe.Obeys tame) → (∀ layer ∈ layers, layer.Ready) →
    ∀ rewrite : MethodRewrite, List.Forall₂
      (Opened (stepAll layers (.sizes maxStack maxLocals) rewrite).2) (layers.filter guarding)
      ((stepAll layers (.sizes maxStack maxLocals) rewrite).1.filter guarding)
  | [], _, _, _ => .nil
  | layer :: rest, obey, ready, rewrite => by
    have others := stepAll_opened maxStack maxLocals
      (fun other among => obey other (List.mem_cons_of_mem _ among))
      (fun other among => ready other (List.mem_cons_of_mem _ among)) rewrite
    let reached := (stepAll rest (.sizes maxStack maxLocals) rewrite).2
    have served : Served (tame (.sizes maxStack maxLocals) reached) reached
        (layer.after (.sizes maxStack maxLocals) reached).2 :=
      after_served permits_tame (obey layer List.mem_cons_self) (.refl reached)
    obtain ⟨nodes, adds⟩ := served.adds (fun ⟨_, _, last⟩ => nomatch last) (Nat.le_refl _)
    have step : stepAll (layer :: rest) (.sizes maxStack maxLocals) rewrite =
        ((layer.after (.sizes maxStack maxLocals) reached).1 ::
          (stepAll rest (.sizes maxStack maxLocals) rewrite).1,
          (layer.after (.sizes maxStack maxLocals) reached).2) := by
      simp only [stepAll, before_sizes, reached]
    -- The inner layers have opened theirs; what this one adds comes behind and leaves them open.
    have onwards := others.imp fun _ _ opened => opened.later adds
    rw [step]
    cases guards : layer.guarding with
    | true =>
      have opened := after_sizes_opened (ready layer List.mem_cons_self) guards maxStack maxLocals
        reached
      have guards' : (layer.after (.sizes maxStack maxLocals) reached).1.guarding = true := by
        obtain ⟨label, same, _⟩ := opened.opened
        rw [same, guarding_holding, guards]
      rw [List.filter_cons_of_pos guards, List.filter_cons_of_pos guards']
      exact .cons opened onwards
    | false =>
      have guards' := after_sizes_other guards maxStack maxLocals reached
      rw [List.filter_cons_of_neg (by rw [guards]; exact Bool.false_ne_true),
        List.filter_cons_of_neg (by rw [guards']; exact Bool.false_ne_true)]
      exact onwards

/-! ## Where ranges are closed -/

/-- All that layers ask for at the end of a method. -/
def closings : List Layer → MethodRewrite → List Injection.Request
  | [], _ => []
  | layer :: rest, rewrite =>
    let own := layer.deedRequests rewrite .closeRange
    own ++ closings rest (own.foldl MethodRewrite.perform rewrite)

theorem deedRequests_other (other : layer.guarding = false) (rewrite : MethodRewrite) :
    layer.deedRequests rewrite .closeRange = [] := by
  obtain ⟨probe, method, watch⟩ := layer
  cases watch <;> first | rfl | cases other

theorem deedRequests_opened (guards : layer.guarding = true) (label : Label)
    (rewrite : MethodRewrite) : (layer.holding (some label)).deedRequests rewrite .closeRange =
      layer.closeRangeRequests label rewrite := by
  obtain ⟨probe, method, watch⟩ := layer
  cases watch <;> first | rfl | cases guards

/-- A layer that has its range open closes it, and those behind it come after that. -/
theorem closings_opened (guards : layer.guarding = true) (label : Label) (rest : List Layer)
    (rewrite : MethodRewrite) : closings (layer.holding (some label) :: rest) rewrite =
      layer.closeRangeRequests label rewrite ++ closings rest (layer.closeRange label rewrite) := by
  rw [closings, deedRequests_opened guards, foldl_closeRangeRequests]

/-- Only layers for errors ask for anything then. -/
theorem closings_filter : ∀ (layers : List Layer) (rewrite : MethodRewrite),
    closings layers rewrite = closings (layers.filter guarding) rewrite
  | [], _ => rfl
  | layer :: rest, rewrite => by
    cases guards : layer.guarding with
    | true =>
      rw [List.filter_cons_of_pos guards, closings, closings, closings_filter rest]
    | false =>
      rw [List.filter_cons_of_neg (by rw [guards]; exact Bool.false_ne_true), closings,
        deedRequests_other guards]
      exact closings_filter rest rewrite

/-- At the end a layer closes its range, if it has one open, and does nothing else. -/
theorem early_maxs (layer : Layer) (maxStack maxLocals : UInt16) :
    layer.early (.maxs maxStack maxLocals) = some .closeRange ∨
      layer.early (.maxs maxStack maxLocals) = none ∧
        ∀ rewrite, layer.deedRequests rewrite .closeRange = [] := by
  obtain ⟨probe, method, watch⟩ := layer
  rcases watch with prologue | type | ⟨prologue, _ | start⟩ | ⟨_ | _, last⟩ | ⟨handlers, _ | _⟩ | _ <;>
    first | exact .inl rfl | exact .inr ⟨rfl, fun _ => rfl⟩

theorem late_maxs (layer : Layer) (maxStack maxLocals : UInt16) :
    layer.late (.maxs maxStack maxLocals) = none ∧ layer.meet (.maxs maxStack maxLocals) = layer := by
  obtain ⟨probe, method, watch⟩ := layer
  cases watch <;> exact ⟨rfl, rfl⟩

/-- What comes to the method at its end: the requests of the layers, and then the sizes. -/
theorem record_maxs (maxStack maxLocals : UInt16) : ∀ (layers : List Layer)
    (rewrite : MethodRewrite),
    Happening.record (Lookout.turn (.maxs maxStack maxLocals) (layers.map lookout))
        (layers, rewrite) =
      (closings layers rewrite).map .request ++ [.own (.maxs maxStack maxLocals)]
  | [], _ => rfl
  | layer :: rest, rewrite => by
    have others := record_maxs maxStack maxLocals rest
    obtain ⟨late, meet⟩ := layer.late_maxs maxStack maxLocals
    have met : Happening.happen (layer :: rest, rewrite) (.meets 0 (.maxs maxStack maxLocals)) =
        (layer :: rest, rewrite) := by
      show (layer.meet (.maxs maxStack maxLocals) :: rest, rewrite) = _
      rw [meet]
    simp only [List.map_cons, Lookout.turn, early_lookout, late_lookout, late, closings,
      List.cons_append, Option.toList_none, List.map_nil, List.append_nil, Happening.record,
      Happening.actions, List.nil_append, met, Happening.record_append]
    -- A layer closes its range before the inner ones do, as it sees the end first.
    rcases layer.early_maxs maxStack maxLocals with early | ⟨early, nothing⟩
    · have own : Happening.record ((some Deed.closeRange).toList.map (.does 0))
          (layer :: rest, rewrite) = (layer.deedRequests rewrite .closeRange).map .request := by
        simp [Happening.record, Happening.actions]
      rw [early, own, Happening.foldl_happen_does, Happening.record_within, others]
      simp only [perform?, foldl_deedRequests, List.map_append, List.append_assoc]
    · rw [early, nothing]
      exact (Happening.record_within _ _ _ _).trans (others _)

/-- The record of a run up to its end. -/
theorem record_ended (events : List MethodEvent) (maxStack maxLocals : UInt16)
    (layers : List Layer) (rewrite : MethodRewrite) :
    record layers (events ++ [.maxs maxStack maxLocals]) rewrite =
      record layers events rewrite ++
        ((closings (runAll layers events rewrite).1 (runAll layers events rewrite).2).map .request ++
          [.own (.maxs maxStack maxLocals)]) := by
  rw [record_append, ← record_maxs]
  refine congrArg (record layers events rewrite ++ ·) ?_
  exact congrArg (Happening.record · _) (List.append_nil _)

/-- What is closed at the end leaves the method where it is. -/
theorem runAll_ended (events : List MethodEvent) (maxStack maxLocals : UInt16)
    (layers : List Layer) (rewrite : MethodRewrite) :
    let reached := runAll layers events rewrite
    (runAll layers (events ++ [.maxs maxStack maxLocals]) rewrite).2 =
      ((closings reached.1 reached.2).foldl MethodRewrite.perform reached.2).step
        (.maxs maxStack maxLocals) := by
  intro reached
  rw [runAll_record, record_ended, List.foldl_append, ← runAll_record, List.foldl_append,
    List.foldl_map]
  rfl

end Layer

end ClassWeave
