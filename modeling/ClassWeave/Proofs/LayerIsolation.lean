/-
# ClassWeave.Proofs.LayerIsolation -- layers do not get in each other's way

What a layer does to a method is decided by its location and by the events of the
method itself.  `Watch.early` and `Watch.late` say what it does at an event without
looking at the method being rewritten, and `Lookout.history` puts together what
happens on the way of all events through all layers: who meets which event, who does
what, and what the method itself takes.  No probe code occurs in it.

`Layer.runAll_isolated` says that a run of the layers is that history carried out
(`Happening.happen`), whatever the probes inject: every layer and the method meet the
events in order and each once, and what concerns one layer is the history of that
layer alone.
-/
import ClassWeave.Proofs.Weaving

set_option autoImplicit false

namespace ClassWeave

/-! ## What a layer does, and when -/

/-- What a layer does to a method: its probe's code, with the value on top of the stack kept for
it if that has a type here, or an end of the range that it covers. -/
inductive Deed
  | fire (kept : Option ValueType)
  | openRange
  | closeRange
deriving DecidableEq

namespace Watch

/-- What is done before an event goes on. -/
def early (location : Location) : Watch → MethodEvent → Option Deed
  | .result type, .insn insn =>
    if insn.opcode.isReturn then some (.fire (if type = .void then none else some type)) else none
  | .error _ (some _), .maxs _ _ => some .closeRange
  | .line true _, .insn _ => some (.fire none)
  | .handler _ true, .insn _ => some (.fire (some ValueType.throwable))
  | .anchored, .insn insn =>
    if location.matches insn && !Layer.firesAfter location insn then
      some (.fire (if insn.opcode = Opcode.athrow then some ValueType.throwable else none))
    else none
  | _, _ => none

/-- What is done after an event has gone on. -/
def late (location : Location) : Watch → MethodEvent → Option Deed
  | .entry prologue, .sizes _ _ => if prologue.waiting then none else some (.fire none)
  | .entry prologue, .insn insn => if (prologue.step insn).1 then some (.fire none) else none
  | .error prologue _, .sizes _ _ => if prologue.waiting then none else some .openRange
  | .error prologue _, .insn insn => if (prologue.step insn).1 then some .openRange else none
  | .anchored, .insn insn =>
    if location.matches insn && Layer.firesAfter location insn then
      some (.fire (Layer.callResult? insn))
    else none
  | _, _ => none

/-- What is remembered of an event. -/
def meet (location : Location) : Watch → MethodEvent → Watch
  | .entry prologue, .insn insn => .entry (prologue.step insn).2
  | .error prologue start, .insn insn => .error (prologue.step insn).2 start
  | .line pending last, .line number _ =>
    .line (pending || Layer.lineFires location last number) (some number)
  | .line _ last, .insn _ => .line false last
  | .handler handlers pending, .tryBlock block => .handler (block.handler :: handlers) pending
  | .handler handlers pending, .label label =>
    .handler handlers (pending || handlers.contains label)
  | .handler handlers _, .insn _ => .handler handlers false
  | watch, _ => watch

/-- The covered range starts at another label, or at none. -/
def hold (start : Option Label) : Watch → Watch
  | .error prologue _ => .error prologue start
  | watch => watch

/-- Any label does for what is decided by there being one. -/
def blind : Watch → Watch
  | .error prologue start => .error prologue (start.map fun _ => ⟨0⟩)
  | watch => watch

/-- What is remembered of one's own deed, but for the label. -/
def remember : Option Deed → Watch → Watch
  | some .openRange, watch => watch.hold (some ⟨0⟩)
  | some .closeRange, watch => watch.hold none
  | _, watch => watch

variable (location : Location) (watch : Watch) (event : MethodEvent)

@[simp] theorem early_blind : watch.blind.early location event = watch.early location event := by
  rcases watch with _ | _ | ⟨_, _ | _⟩ | _ | _ | _ <;> cases event <;> rfl

@[simp] theorem late_blind : watch.blind.late location event = watch.late location event := by
  rcases watch with _ | _ | ⟨_, _ | _⟩ | _ | _ | _ <;> cases event <;> rfl

@[simp] theorem meet_blind : watch.blind.meet location event = (watch.meet location event).blind := by
  rcases watch with _ | _ | ⟨_, _ | _⟩ | _ | _ | _ <;> cases event <;> rfl

@[simp] theorem blind_hold (start : Option Label) :
    (watch.hold start).blind = watch.blind.hold (start.map fun _ => ⟨0⟩) := by
  cases watch <;> rfl

end Watch

/-! ## One layer at one event -/

namespace Layer

/-- The layer with another start of its range. -/
def holding (layer : Layer) (start : Option Label) : Layer :=
  { layer with watch := layer.watch.hold start }

/-- The layer that has met an event. -/
def meet (layer : Layer) (event : MethodEvent) : Layer :=
  { layer with watch := layer.watch.meet layer.probe.location event }

def perform (layer : Layer) (rewrite : MethodRewrite) : Deed → Layer × MethodRewrite
  | .fire none => (layer, layer.fire none rewrite)
  | .fire (some type) => (layer, layer.fireWith type rewrite)
  | .openRange =>
    let (label, rewrite) := openRange rewrite
    (layer.holding (some label), rewrite)
  | .closeRange =>
    match layer.watch with
    | .error _ (some start) => (layer.holding none, layer.closeRange start rewrite)
    | _ => (layer, rewrite)

def perform? (layer : Layer) (rewrite : MethodRewrite) : Option Deed → Layer × MethodRewrite
  | none => (layer, rewrite)
  | some deed => layer.perform rewrite deed

variable (layer : Layer) (event : MethodEvent) (rewrite next : MethodRewrite)

/-- What the layer does before an event, by what it has seen so far. -/
def early : Option Deed := layer.watch.early layer.probe.location event

def late : Option Deed := layer.watch.late layer.probe.location event

@[simp] theorem perform_fire_fst (kept : Option ValueType) :
    (layer.perform rewrite (.fire kept)).1 = layer := by
  cases kept <;> rfl

/-- Before an event goes on, a layer does what the event and its watch say. -/
theorem before_rewrite :
    (layer.before event rewrite).2 = ((layer.meet event).perform? rewrite (layer.early event)).2 := by
  obtain ⟨probe, method, watch⟩ := layer
  rcases watch with prologue | type | ⟨prologue, _ | start⟩ | ⟨_ | _, last⟩ | ⟨handlers, _ | _⟩ | _ <;>
    cases event <;> try rfl
  case result insn =>
    simp only [before, early, Watch.early]
    split
    · split <;> rfl
    · rfl
  case anchored insn =>
    simp only [before, early, Watch.early]
    split
    · split <;> rfl
    · rfl

/-- When an event has gone on, the layer remembers it and does what is left to do. -/
theorem after_before :
    (layer.before event rewrite).1.after event next =
      (((layer.meet event).perform? rewrite (layer.early event)).1).perform? next
        (layer.late event) := by
  obtain ⟨probe, method, watch⟩ := layer
  -- For most watches and events both sides compute to the same; the rest decide something first.
  rcases watch with prologue | type | ⟨prologue, _ | start⟩ | ⟨_ | _, last⟩ | ⟨handlers, _ | _⟩ | _ <;>
    cases event <;> try rfl
  case entry.sizes | entry.insn | error.none.sizes | error.none.insn | error.some.sizes
    | error.some.insn =>
    simp only [before, after, early, late, Watch.early, Watch.late, perform?]
    split <;> rfl
  case result.insn insn =>
    simp only [before, early, late, Watch.early, Watch.late]
    split
    · simp only [perform?, perform_fire_fst]
      rfl
    · rfl
  case anchored.insn insn =>
    have given : ((Layer.mk probe method .anchored).before (.insn insn) rewrite).1 =
        ⟨probe, method, .anchored⟩ := by
      simp only [before]
      split <;> rfl
    have done : (((Layer.mk probe method .anchored).meet (.insn insn)).perform? rewrite
        ((Layer.mk probe method .anchored).early (.insn insn))).1 = ⟨probe, method, .anchored⟩ := by
      simp only [early, Watch.early]
      split
      · exact perform_fire_fst _ _ _
      · rfl
    rw [given, done]
    simp only [after, late, Watch.late]
    split
    · cases callResult? insn <;> rfl
    · rfl

/-- But for the label, a layer remembers of a deed what can be known without the method. -/
theorem blind_perform? (deed? : Option Deed) :
    (layer.perform? rewrite deed?).1.watch.blind = layer.watch.blind.remember deed? := by
  obtain ⟨probe, method, watch⟩ := layer
  rcases deed? with _ | kept | _ | _
  · rfl
  · exact congrArg (fun layer : Layer => layer.watch.blind) (perform_fire_fst _ _ kept)
  · exact Watch.blind_hold watch _
  · rcases watch with _ | _ | ⟨_, _ | _⟩ | _ | _ | _ <;> rfl

@[simp] theorem perform?_probe (deed? : Option Deed) :
    (layer.perform? rewrite deed?).1.probe = layer.probe := by
  obtain ⟨probe, method, watch⟩ := layer
  rcases deed? with _ | kept | _ | _
  · rfl
  · exact congrArg Layer.probe (perform_fire_fst _ _ kept)
  · rfl
  · rcases watch with _ | _ | ⟨_, _ | _⟩ | _ | _ | _ <;> rfl

end Layer

/-! ## The history of all layers -/

/-- What happens on the way of events through layers, which are told by their numbers. -/
inductive Happening
  /-- A layer gets an event of the method. -/
  | meets (layer : Nat) (event : MethodEvent)
  | does (layer : Nat) (deed : Deed)
  /-- The method being rewritten gets an event of its own. -/
  | own (event : MethodEvent)
deriving DecidableEq

namespace Happening

/-- The same with one layer more around it. -/
def within : Happening → Happening
  | .meets layer event => .meets (layer + 1) event
  | .does layer deed => .does (layer + 1) deed
  | .own event => .own event

def own? : Happening → Option MethodEvent
  | .own event => some event
  | _ => none

def metBy? (layer : Nat) : Happening → Option MethodEvent
  | .meets other event => if other = layer then some event else none
  | _ => none

/-- Whether the layer's probe code is emitted. -/
def fires (layer : Nat) : Happening → Bool
  | .does other (.fire _) => other == layer
  | _ => false

/-- What concerns a layer and the method itself, with the number of an only layer. -/
def alone? (layer : Nat) : Happening → Option Happening
  | .meets other event => if other = layer then some (.meets 0 event) else none
  | .does other deed => if other = layer then some (.does 0 deed) else none
  | .own event => some (.own event)

/-- What a happening does to the layers and to the method being rewritten. -/
def happen (state : List Layer × MethodRewrite) : Happening → List Layer × MethodRewrite
  | .meets layer event => (state.1.modify layer fun met => met.meet event, state.2)
  | .does layer deed =>
    match state.1[layer]? with
    | none => state
    | some doer =>
      let (doer, rewrite) := doer.perform state.2 deed
      (state.1.set layer doer, rewrite)
  | .own event => (state.1, state.2.step event)

end Happening

namespace Location

/-- Whether the location is one of single instructions. -/
def anchored (location : Location) : Bool :=
  match location.kind with
  | .entry | .return | .error | .line | .catch => false
  | _ => true

/-- Whether an event is an instruction that the location matches. -/
def anchors (location : Location) : MethodEvent → Bool
  | .insn insn => location.matches insn
  | _ => false

end Location

/-- A layer without its probe's code. -/
structure Lookout where
  location : Location
  watch : Watch

namespace Lookout

def start (location : Location) (method : MethodContext) : Lookout :=
  let layer := Layer.start ⟨"", "", none, location, fun _ => .done⟩ method
  ⟨location, layer.watch⟩

def early (lookout : Lookout) (event : MethodEvent) : Option Deed :=
  lookout.watch.early lookout.location event

def late (lookout : Lookout) (event : MethodEvent) : Option Deed :=
  lookout.watch.late lookout.location event

/-- The lookout that an event has passed. -/
def past (event : MethodEvent) (lookout : Lookout) : Lookout :=
  { lookout with
    watch := ((lookout.watch.meet lookout.location event).remember (lookout.early event)).remember
      (lookout.late event) }

/-- One event on its way through all layers, to the method and back. -/
def turn (event : MethodEvent) : List Lookout → List Happening
  | [] => [.own event]
  | lookout :: rest =>
    .meets 0 event :: (lookout.early event).toList.map (.does 0)
      ++ (turn event rest).map .within
      ++ (lookout.late event).toList.map (.does 0)

/-- All events of a method. -/
def history : List Lookout → List MethodEvent → List Happening
  | _, [] => []
  | lookouts, event :: events =>
    turn event lookouts ++ history (lookouts.map (past event)) events

end Lookout

/-! ## A run is its history carried out -/

namespace Happening

variable (layer : Layer) (rest : List Layer) (rewrite : MethodRewrite)

/-- What the outermost layer does is done by the first of the list. -/
theorem foldl_happen_does (deed? : Option Deed) :
    (deed?.toList.map (.does 0)).foldl happen (layer :: rest, rewrite) =
      ((layer.perform? rewrite deed?).1 :: rest, (layer.perform? rewrite deed?).2) := by
  cases deed? <;> rfl

/-- What happens further in passes by the outermost layer. -/
theorem happen_within (happening : Happening) :
    happen (layer :: rest, rewrite) happening.within =
      (layer :: (happen (rest, rewrite) happening).1, (happen (rest, rewrite) happening).2) := by
  cases happening with
  | meets | own => rfl
  | does other deed =>
    simp only [within, happen, List.getElem?_cons_succ]
    cases rest[other]? <;> rfl

theorem foldl_happen_within (told : List Happening) :
    (told.map within).foldl happen (layer :: rest, rewrite) =
      (layer :: (told.foldl happen (rest, rewrite)).1, (told.foldl happen (rest, rewrite)).2) := by
  induction told generalizing rest rewrite with
  | nil => rfl
  | cons happening told ih =>
    simp only [List.map_cons, List.foldl_cons, happen_within]
    exact ih _ _

end Happening

namespace Layer

/-- The layer without its probe's code. -/
def lookout (layer : Layer) : Lookout := ⟨layer.probe.location, layer.watch.blind⟩

theorem early_lookout (layer : Layer) (event : MethodEvent) :
    layer.lookout.early event = layer.early event :=
  Watch.early_blind _ _ _

theorem late_lookout (layer : Layer) (event : MethodEvent) :
    layer.lookout.late event = layer.late event :=
  Watch.late_blind _ _ _

/-- An event takes a layer where it takes its lookout. -/
theorem lookout_past (layer : Layer) (event : MethodEvent) (rewrite next : MethodRewrite) :
    ((((layer.meet event).perform? rewrite (layer.early event)).1).perform? next
      (layer.late event)).1.lookout = layer.lookout.past event := by
  simp only [lookout, Lookout.past, blind_perform?, perform?_probe, Lookout.early, Lookout.late,
    Watch.early_blind, Watch.late_blind, Watch.meet_blind]
  rfl

/-- An event goes through the layers as its turn says, and leaves them on the lookout for the
next one. -/
theorem stepAll_turn (event : MethodEvent) : ∀ (layers : List Layer) (rewrite : MethodRewrite),
    stepAll layers event rewrite =
      (Lookout.turn event (layers.map lookout)).foldl Happening.happen (layers, rewrite) ∧
    (stepAll layers event rewrite).1.map lookout = (layers.map lookout).map (Lookout.past event)
  | [], _ => ⟨rfl, rfl⟩
  | layer :: rest, rewrite => by
    obtain ⟨inner, past⟩ := stepAll_turn event rest (layer.before event rewrite).2
    have step : stepAll (layer :: rest) event rewrite =
        (((layer.before event rewrite).1.after event
          (stepAll rest event (layer.before event rewrite).2).2).1 ::
            (stepAll rest event (layer.before event rewrite).2).1,
        ((layer.before event rewrite).1.after event
          (stepAll rest event (layer.before event rewrite).2).2).2) := rfl
    rw [after_before, before_rewrite] at step
    rw [before_rewrite] at inner past
    constructor
    · rw [step, inner]
      simp only [List.map_cons, Lookout.turn, List.foldl_append, List.foldl_cons,
        early_lookout, late_lookout]
      have met : Happening.happen (layer :: rest, rewrite) (.meets 0 event) =
          (layer.meet event :: rest, rewrite) := rfl
      rw [met, Happening.foldl_happen_does, Happening.foldl_happen_within,
        Happening.foldl_happen_does]
    · rw [step]
      simp only [List.map_cons, past, lookout_past]

theorem runAll_history : ∀ (events : List MethodEvent) (layers : List Layer)
    (rewrite : MethodRewrite),
    runAll layers events rewrite =
      (Lookout.history (layers.map lookout) events).foldl Happening.happen (layers, rewrite)
  | [], _, _ => rfl
  | event :: events, layers, rewrite => by
    obtain ⟨turned, past⟩ := stepAll_turn event layers rewrite
    have rest := runAll_history events (stepAll layers event rewrite).1
      (stepAll layers event rewrite).2
    rw [past] at rest
    calc runAll layers (event :: events) rewrite
        = runAll (stepAll layers event rewrite).1 events (stepAll layers event rewrite).2 := rfl
      _ = _ := rest
      _ = _ := by rw [Lookout.history, List.foldl_append, ← turned]

end Layer

/-! ## What concerns one layer -/

namespace Lookout

variable (event : MethodEvent) (lookouts : List Lookout)

theorem own_turn : (turn event lookouts).filterMap Happening.own? = [event] := by
  induction lookouts with
  | nil => rfl
  | cons lookout rest ih =>
    have others (deed? : Option Deed) :
        (deed?.toList.map (Happening.does 0)).filterMap Happening.own? = [] := by
      cases deed? <;> rfl
    have within : Happening.own? ∘ Happening.within = Happening.own? := by
      funext happening
      cases happening <;> rfl
    simp only [turn, List.filterMap_append, List.filterMap_cons, others, List.filterMap_map, within, ih]
    rfl

theorem own_history (events : List MethodEvent) :
    (history lookouts events).filterMap Happening.own? = events := by
  induction events generalizing lookouts with
  | nil => rfl
  | cons event events ih =>
    rw [history, List.filterMap_append, own_turn, ih]
    rfl

/-- The turn of an event, to one of the layers. -/
theorem alone_turn : ∀ (lookouts : List Lookout) {i : Nat} {lookout : Lookout},
    lookouts[i]? = some lookout →
    (turn event lookouts).filterMap (Happening.alone? i) = turn event [lookout]
  | [], _, _, found => by cases found
  | first :: rest, 0, lookout, found => by
    cases found
    have own (deed? : Option Deed) :
        (deed?.toList.map (Happening.does 0)).filterMap (Happening.alone? 0) =
          deed?.toList.map (.does 0) := by
      cases deed? <;> rfl
    have further : Happening.alone? 0 ∘ Happening.within =
        fun happening => happening.own?.map .own := by
      funext happening
      cases happening <;> rfl
    have inner : ((turn event rest).map .within).filterMap (Happening.alone? 0) = [.own event] := by
      rw [List.filterMap_map, further, ← List.map_filterMap, own_turn]
      rfl
    simp only [turn, List.filterMap_append, List.filterMap_cons, own, inner]
    rfl
  | first :: rest, i + 1, lookout, found => by
    have ih := alone_turn rest (show rest[i]? = some lookout from found)
    have others (deed? : Option Deed) :
        (deed?.toList.map (Happening.does 0)).filterMap (Happening.alone? (i + 1)) = [] := by
      cases deed? <;> rfl
    have within : Happening.alone? (i + 1) ∘ Happening.within = Happening.alone? i := by
      funext happening
      cases happening <;> simp [Happening.within, Happening.alone?]
    have met : Happening.alone? (i + 1) (.meets 0 event) = none := rfl
    rw [← ih]
    simp only [turn, List.filterMap_append, List.filterMap_cons, met, others, List.filterMap_map,
      within, List.append_nil, List.nil_append]

/-- **What concerns one layer is its history alone**, whatever the others are. -/
theorem alone_history (events : List MethodEvent) : ∀ (lookouts : List Lookout) {i : Nat}
    {lookout : Lookout}, lookouts[i]? = some lookout →
    (history lookouts events).filterMap (Happening.alone? i) = history [lookout] events := by
  induction events with
  | nil => intros; rfl
  | cons event events ih =>
    intro lookouts i lookout found
    have next : (lookouts.map (past event))[i]? = some (lookout.past event) := by
      rw [List.getElem?_map, found]
      rfl
    rw [history, List.filterMap_append, alone_turn event lookouts found, ih _ next]
    rfl

theorem metBy_history (events : List MethodEvent) {lookouts : List Lookout} {i : Nat}
    {lookout : Lookout} (found : lookouts[i]? = some lookout) :
    (history lookouts events).filterMap (Happening.metBy? i) = events := by
  have only (lookout : Lookout) :
      (history [lookout] events).filterMap (Happening.metBy? 0) = events := by
    induction events generalizing lookout with
    | nil => rfl
    | cons event events ih =>
      have deeds (deed? : Option Deed) :
          (deed?.toList.map (Happening.does 0)).filterMap (Happening.metBy? 0) = [] := by
        cases deed? <;> rfl
      simp only [history, turn, List.filterMap_append, List.filterMap_cons, deeds, List.map_cons,
        List.map_nil, ih]
      rfl
  have same : Happening.metBy? i =
      fun happening => (happening.alone? i).bind (Happening.metBy? 0) := by
    funext happening
    cases happening with
    | meets other event =>
      by_cases mine : other = i <;> simp [Happening.metBy?, Happening.alone?, mine]
    | does other deed =>
      by_cases mine : other = i <;> simp [Happening.metBy?, Happening.alone?, mine]
    | own => rfl
  -- What a layer meets can be read off what concerns it, and that is its history alone.
  rw [same, ← List.filterMap_filterMap, alone_history events lookouts found, only]

/-- At a single event, an anchored layer fires before or after the instruction that it matches. -/
theorem fires_turn (location : Location) :
    (turn event [⟨location, .anchored⟩]).countP (Happening.fires 0) =
      if location.anchors event then 1 else 0 := by
  cases event with
  | insn insn =>
    by_cases matched : location.matches insn <;>
      by_cases after : Layer.firesAfter location insn <;>
      simp [turn, early, late, Watch.early, Watch.late, Location.anchors, matched, after,
        Happening.fires, Happening.within]
  | _ => rfl

theorem past_anchored (location : Location) :
    past event ⟨location, .anchored⟩ = ⟨location, .anchored⟩ := by
  have kept : (⟨location, .anchored⟩ : Lookout).watch.meet location event = .anchored := by
    cases event <;> rfl
  have recalled (deed? : Option Deed) : Watch.anchored.remember deed? = .anchored := by
    rcases deed? with _ | _ | _ | _ <;> rfl
  simp only [past, kept, recalled]

/-- A layer that is anchored to single instructions fires once for each that it matches. -/
theorem fires_history (events : List MethodEvent) {lookouts : List Lookout} {i : Nat}
    {location : Location} (found : lookouts[i]? = some ⟨location, .anchored⟩) :
    (history lookouts events).countP (Happening.fires i) = events.countP location.anchors := by
  have only : (history [⟨location, .anchored⟩] events).countP (Happening.fires 0) =
      events.countP location.anchors := by
    induction events with
    | nil => rfl
    | cons event events ih =>
      rw [history, List.countP_append, fires_turn, List.map_cons, List.map_nil, past_anchored, ih,
        List.countP_cons, Nat.add_comm]
  have same : Happening.fires i =
      fun happening => ((happening.alone? i).map (Happening.fires 0)).getD false := by
    funext happening
    cases happening with
    | meets other event =>
      by_cases mine : other = i <;> simp [Happening.fires, Happening.alone?, mine]
    | does other deed =>
      by_cases mine : other = i <;> cases deed <;> simp [Happening.fires, Happening.alone?, mine]
    | own => rfl
  rw [same, ← List.countP_filterMap, alone_history events lookouts found, only]

end Lookout

/-! ## Deeds reach the method and nobody else -/

namespace Layer

/-- What a layer does comes to the method as requests of injected code. -/
theorem perform_served (layer : Layer) (rewrite : MethodRewrite) (deed : Deed) :
    Served (anything (.maxs 0 0) rewrite) rewrite (layer.perform rewrite deed).2 := by
  have obeys : layer.probe.Obeys anything := fun _ _ _ _ _ => Injection.obeys_anything _ _
  rcases deed with (_ | type) | _ | _
  · exact fire_served permits_anything obeys none (.refl rewrite)
  · exact fireWith_served permits_anything obeys type (.refl rewrite)
  · exact openRange_served permits_anything (.refl rewrite)
  · simp only [perform]
    split
    · exact closeRange_served permits_anything obeys _ (.refl rewrite)
    · exact .refl rewrite

end Layer

/-- A deed leaves the other layers as they are, and reaches the method as requests. -/
theorem Happening.happen_does (state : List Layer × MethodRewrite) (i : Nat) (deed : Deed) :
    (∀ j, j ≠ i → (happen state (.does i deed)).1[j]? = state.1[j]?) ∧
      ∃ requests, Requests (fun _ _ => True) state.2 requests (happen state (.does i deed)).2 := by
  simp only [happen]
  cases state.1[i]? with
  | none => exact ⟨fun _ _ => rfl, [], .done _⟩
  | some doer =>
    refine ⟨fun j other => ?_, Layer.perform_served doer state.2 deed⟩
    exact List.getElem?_set_ne (Ne.symm other)

/-! ## The layers of the probes of a method -/

/-- Layers on their own: `told` is what happens to them on the way of the events of a method. -/
structure Layer.Isolated (probes : List Probe) (method : MethodContext) (events : List MethodEvent)
    (rewrite : MethodRewrite) (told : List Happening) : Prop where
  /-- The run is what is told, one happening after the other. -/
  run : runAll (probes.map fun probe => start probe method) events rewrite =
    told.foldl Happening.happen (probes.map fun probe => start probe method, rewrite)
  /-- The method being rewritten gets its own events in order and each once. -/
  own : told.filterMap Happening.own? = events
  /-- So does every layer. -/
  met : ∀ i < probes.length, told.filterMap (Happening.metBy? i) = events
  /-- What a layer does, and when, is as if it was alone and had no code. -/
  alone : ∀ (i : Nat) (known : i < probes.length), told.filterMap (Happening.alone? i) =
    Lookout.history [.start probes[i].location method] events
  /-- Layers anchored to single instructions fire once for each that their location matches. -/
  fires : ∀ (i : Nat) (known : i < probes.length), probes[i].location.anchored = true →
    told.countP (Happening.fires i) = events.countP probes[i].location.anchors
  /-- Whatever a layer does leaves all others as they are and reaches the method as requests. -/
  reach : ∀ (state : List Layer × MethodRewrite) (i : Nat) (deed : Deed),
    (∀ j, j ≠ i → (Happening.happen state (.does i deed)).1[j]? = state.1[j]?) ∧
      ∃ requests, Requests (fun _ _ => True) state.2 requests
        (Happening.happen state (.does i deed)).2

theorem Layer.lookout_start (probe : Probe) (method : MethodContext) :
    (start probe method).lookout = .start probe.location method := by
  obtain ⟨_, _, _, location, _⟩ := probe
  simp only [lookout, start, Lookout.start]
  cases location.kind <;> rfl

theorem Lookout.start_anchored {location : Location} (method : MethodContext)
    (anchored : location.anchored = true) : start location method = ⟨location, .anchored⟩ := by
  obtain ⟨_, _, _, _, _, kind, _⟩ := location
  cases kind <;> first | rfl | cases anchored

/-- **Every layer, and the method being rewritten, gets the events of the method and no others.**
What happens is decided by the locations of the probes and the events alone, so it is the same
for any probe code; and no layer does anything but what it would do without the others. -/
theorem Layer.runAll_isolated (probes : List Probe) (method : MethodContext)
    (events : List MethodEvent) (rewrite : MethodRewrite) :
    Isolated probes method events rewrite
      (Lookout.history (probes.map fun probe => .start probe.location method) events) := by
  have lookouts : (probes.map fun probe => start probe method).map lookout =
      probes.map fun probe => .start probe.location method := by
    rw [List.map_map]
    exact List.map_congr_left fun probe _ => lookout_start probe method
  have among (i : Nat) (known : i < probes.length) :
      (probes.map fun probe => Lookout.start probe.location method)[i]? =
        some (.start probes[i].location method) := by
    rw [List.getElem?_map, List.getElem?_eq_getElem known]
    rfl
  refine ⟨?_, Lookout.own_history _ events,
    fun i known => Lookout.metBy_history events (among i known),
    fun i known => Lookout.alone_history events _ (among i known), fun i known anchored => ?_,
    Happening.happen_does⟩
  · rw [← lookouts]
    exact runAll_history events _ rewrite
  · refine Lookout.fires_history events ?_
    rw [among i known, Lookout.start_anchored method anchored]

end ClassWeave
