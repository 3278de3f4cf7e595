/-
# ClassWeave.Proofs.RewriteActions -- a rewrite as a run of actions

Layers and injected code reach a method being rewritten through a handful of requests.
`MethodRewrite.perform` is the effect of one, and `Weaves` describes whole runs: for
every event of the method some requests, the event itself, and some requests more.
Every run of the layers over the events of a method is such a run (`runAll_weaves`), and
what `allowed` says of single requests holds of all that are made.

So a statement about rewrites is proved by a look at one event and one request at a
time; which layer made a request, and for which probe, does not matter to it.
`MethodRewrite.Follows` is the first statement of the kind: labels and constant pool
only grow, and the only payloads put down are those of the method itself.
-/
import ClassWeave.Proofs.CodeGrowth
import ClassWeave.Proofs.RewriteOutline
import ClassWeave.Rewrite.Layer

set_option autoImplicit false

namespace ClassWeave

/-- A request of injected code. -/
inductive Injection.Request
  | label
  | event (event : MethodEvent)
  | slot (type : ValueType)
  | store (type : ValueType)
  | handler (block : TryBlock)
  | frame (label : Label) (wanted : FrameRequest)
  | fault (cause : InstrumentError)

namespace MethodRewrite

def perform (rewrite : MethodRewrite) : Injection.Request → MethodRewrite
  | .label => rewrite.freshLabel.2
  | .event event => rewrite.inject event
  | .slot type => (rewrite.allocate type).2
  | .store type => (rewrite.storeNew type).2
  | .handler block => (rewrite.addHandler block).2
  | .frame label wanted => (rewrite.askFrame label wanted).2
  | .fault cause => rewrite.fail cause

/-! ## What no action takes back -/

/-- The rewrite of the same method, further on. -/
structure Follows (before after : MethodRewrite) : Prop where
  method : after.method = before.method
  className : after.target.className = before.target.className
  major : after.target.major = before.target.major
  options : after.target.options = before.target.options
  labels : before.nextLabel ≤ after.nextLabel
  pool : before.target.pool.Sound → before.target.pool.Grown after.target.pool
  rewritten : ∃ own, after.target.rewritten = own ++ before.target.rewritten ∧
    ∀ payload ∈ own, payload.1 = before.method.index

namespace Follows

variable {before middle after : MethodRewrite}

theorem refl (rewrite : MethodRewrite) : rewrite.Follows rewrite :=
  ⟨rfl, rfl, rfl, rfl, Nat.le_refl _, fun _ => .refl, [], rfl, by simp⟩

theorem trans (early : before.Follows middle) (late : middle.Follows after) :
    before.Follows after := by
  obtain ⟨first, firstAll, firstOwn⟩ := early.rewritten
  obtain ⟨second, secondAll, secondOwn⟩ := late.rewritten
  refine ⟨late.method.trans early.method, late.className.trans early.className,
    late.major.trans early.major, late.options.trans early.options, Nat.le_trans early.labels late.labels,
    fun sound => (early.pool sound).trans (late.pool ((early.pool sound).sound sound)),
    second ++ first, ?_, ?_⟩
  · rw [secondAll, firstAll, List.append_assoc]
  · intro payload among
    rcases List.mem_append.1 among with new | old
    · rw [secondOwn payload new, early.method]
    · exact firstOwn payload old

/-- An action that leaves the class alone. -/
theorem quiet {outline : MethodRewrite} (same : after.outline = outline)
    (method : outline.method = before.method) (target : outline.target = before.outline.target)
    (labels : before.nextLabel ≤ outline.nextLabel) : before.Follows after := by
  subst same
  have className : after.outline.target.className = before.outline.target.className := by
    rw [target]
  have major : after.outline.target.major = before.outline.target.major := by rw [target]
  have options : after.outline.target.options = before.outline.target.options := by rw [target]
  have pools : after.outline.target.pool = before.outline.target.pool := by rw [target]
  have rewritten : after.outline.target.rewritten = before.outline.target.rewritten := by
    rw [target]
  have grown : before.outline.target.pool.Grown after.outline.target.pool := pools ▸ .refl
  exact ⟨method, className, major, options, labels, fun _ => grown, [], rewritten, by simp⟩

end Follows

variable (rewrite : MethodRewrite)

theorem placeLabel_follows (label : Label) : rewrite.Follows (rewrite.placeLabel label) :=
  .quiet (outline_placeLabel rewrite label) rfl rfl (Nat.le_refl _)

theorem labelHere_follows : rewrite.Follows rewrite.labelHere.2 := by
  cases group : rewrite.group with
  | cons label others =>
    rw [labelHere_of_group rewrite group]
    exact .refl rewrite
  | nil =>
    rw [labelHere_of_empty rewrite group]
    exact .quiet (outline_placeLabel _ _) rfl rfl (Nat.le_succ _)

theorem position_follows (insn : Instruction) : rewrite.Follows (rewrite.position insn).2 := by
  unfold position
  split
  · exact .refl rewrite
  · split
    · exact rewrite.labelHere_follows
    · exact .refl rewrite

theorem instruction_follows (insn : Instruction) : rewrite.Follows (rewrite.instruction insn) := by
  by_cases taken : rewrite.ledger.phase = .open
  · refine (rewrite.position_follows insn).trans ?_
    exact .quiet (outline_instruction rewrite insn taken) rfl rfl (Nat.le_refl _)
  · unfold instruction
    rw [if_pos taken]
    exact .quiet (outline_fail _ _) rfl rfl (Nat.le_refl _)

theorem originalFrame_follows (locals stack : List FrameType) :
    rewrite.Follows (rewrite.originalFrame locals stack) := by
  rcases rewrite.outline_originalFrame locals stack with ⟨_, same⟩ | ⟨_, frame, _, same⟩
  · rw [same]
    exact .refl rewrite
  · exact rewrite.labelHere_follows.trans (.quiet same rfl rfl (Nat.le_refl _))

theorem settle_follows : rewrite.Follows { rewrite with target := rewrite.settle } := by
  have grown := rewrite.serialize_grows rewrite.target.pool
  unfold settle
  simp only
  split
  · exact ⟨rfl, rfl, rfl, rfl, Nat.le_refl _, fun _ => .refl, [], rfl, by simp⟩
  · split
    · rename_i payload pool written
      rw [written] at grown
      exact ⟨rfl, rfl, rfl, rfl, Nat.le_refl _, grown, [(rewrite.method.index, payload)], rfl,
        by simp⟩
    · rename_i cause pool failed
      rw [failed] at grown
      exact ⟨rfl, rfl, rfl, rfl, Nat.le_refl _, grown, [], rfl, by simp⟩

theorem close_follows : rewrite.Follows rewrite.close := by
  unfold close
  split
  · exact .refl rewrite
  · split
    · exact .quiet (outline_fail _ _) rfl rfl (Nat.le_refl _)
    · rename_i ledger closing
      simp only
      split
      · exact .quiet rfl rfl rfl (Nat.le_refl _)
      · exact rewrite.settle_follows.trans (.quiet rfl rfl rfl (Nat.le_refl _))

theorem step_follows (event : MethodEvent) : rewrite.Follows (rewrite.step event) := by
  cases event with
  | frame locals stack => exact rewrite.originalFrame_follows locals stack
  | label label => exact rewrite.placeLabel_follows label
  | insn insn => exact rewrite.instruction_follows insn
  | finish => exact rewrite.close_follows
  | tryBlock block => exact .quiet (outline_addRange _ _) rfl rfl (Nat.le_refl _)
  | _ => exact .quiet rfl rfl rfl (Nat.le_refl _)

theorem inject_follows (event : MethodEvent) : rewrite.Follows (rewrite.inject event) :=
  have marked : rewrite.Follows { rewrite with injected := true } :=
    .quiet rfl rfl rfl (Nat.le_refl _)
  marked.trans (step_follows { rewrite with injected := true } event)

theorem perform_follows (request : Injection.Request) : rewrite.Follows (rewrite.perform request) := by
  have slot (type : ValueType) : rewrite.Follows (rewrite.allocate type).2 :=
    .quiet (outline_allocate rewrite type) rfl rfl (Nat.le_refl _)
  cases request with
  | label => exact .quiet rfl rfl rfl (Nat.le_succ _)
  | event event => exact rewrite.inject_follows event
  | slot type => exact slot type
  | store type =>
    show rewrite.Follows (rewrite.storeNew type).2
    rw [storeNew_eq]
    split
    · exact (slot type).trans (inject_follows _ _)
    · exact slot type
  | handler block => exact .quiet (outline_addHandler rewrite block) rfl rfl (Nat.le_refl _)
  | frame label wanted =>
    have same := outline_askFrame rewrite label wanted
    rcases rewrite.outline_requestFrame label wanted with kept | marked | ⟨_, _, _, _, _, granted⟩
    · exact .quiet (same.trans kept) rfl rfl (Nat.le_refl _)
    · exact .quiet (same.trans marked) rfl rfl (Nat.le_refl _)
    · exact .quiet (same.trans granted) rfl rfl (Nat.le_refl _)
  | fault cause => exact .quiet (outline_fail rewrite cause) rfl rfl (Nat.le_refl _)

end MethodRewrite

/-! ## Runs of requests -/

/-- Which requests are allowed, by the rewrite they reach. -/
abbrev Rule := MethodRewrite → Injection.Request → Prop

/-- Rules by the event that is on its way and the rewrite as it was when that event came. -/
abbrev EventRule := MethodEvent → MethodRewrite → Rule

/-- Requests one after the other, each of them allowed where it comes. -/
inductive Requests (allowed : Rule) :
    MethodRewrite → List Injection.Request → MethodRewrite → Prop
  | done (rewrite : MethodRewrite) : Requests allowed rewrite [] rewrite
  | more {rewrite after : MethodRewrite} {request : Injection.Request}
      {requests : List Injection.Request}
      (permitted : allowed rewrite request)
      (rest : Requests allowed (rewrite.perform request) requests after) :
      Requests allowed rewrite (request :: requests) after

namespace Requests

variable {allowed : Rule} {before middle after : MethodRewrite}

theorem single {request : Injection.Request} (permitted : allowed before request) :
    Requests allowed before [request] (before.perform request) :=
  .more permitted (.done _)

theorem append {first second : List Injection.Request} (early : Requests allowed before first middle)
    (late : Requests allowed middle second after) :
    Requests allowed before (first ++ second) after := by
  induction early with
  | done => exact late
  | more permitted _ ih => exact .more permitted (ih late)

theorem follows {requests : List Injection.Request} (run : Requests allowed before requests after) :
    before.Follows after := by
  induction run with
  | done rewrite => exact .refl rewrite
  | more _ _ ih => exact (MethodRewrite.perform_follows _ _).trans ih

end Requests

/-- Some allowed requests lead from one rewrite to the other. -/
def Served (allowed : Rule) (before after : MethodRewrite) : Prop :=
  ∃ requests, Requests allowed before requests after

namespace Served

variable {allowed : Rule} {before middle after : MethodRewrite}

theorem refl (rewrite : MethodRewrite) : Served allowed rewrite rewrite := ⟨[], .done rewrite⟩

theorem single {request : Injection.Request} (permitted : allowed before request) :
    Served allowed before (before.perform request) := ⟨[request], .single permitted⟩

theorem trans (early : Served allowed before middle) (late : Served allowed middle after) :
    Served allowed before after := by
  obtain ⟨first, early⟩ := early
  obtain ⟨second, late⟩ := late
  exact ⟨first ++ second, early.append late⟩

theorem follows (served : Served allowed before after) : before.Follows after := by
  obtain ⟨requests, run⟩ := served
  exact run.follows

end Served

namespace Injection

/-- Every request the code makes is allowed, given the answers it gets. -/
def Obeys (allowed : Rule) : Injection → MethodRewrite → Prop
  | done, _ | fail _, _ => True
  | newLabel next, rewrite =>
    allowed rewrite .label ∧ (next rewrite.freshLabel.1).Obeys allowed rewrite.freshLabel.2
  | allocate type next, rewrite =>
    allowed rewrite (.slot type) ∧
      (next (rewrite.allocate type).1).Obeys allowed (rewrite.allocate type).2
  | storeNew type next, rewrite =>
    allowed rewrite (.store type) ∧
      (next (rewrite.storeNew type).1).Obeys allowed (rewrite.storeNew type).2
  | handler block next, rewrite =>
    allowed rewrite (.handler block) ∧
      (next (rewrite.addHandler block).1).Obeys allowed (rewrite.addHandler block).2
  | frame label wanted next, rewrite =>
    allowed rewrite (.frame label wanted) ∧
      (next (rewrite.askFrame label wanted).1).Obeys allowed (rewrite.askFrame label wanted).2
  | report cause next, rewrite =>
    allowed rewrite (.fault cause) ∧ next.Obeys allowed (rewrite.fail cause)
  | emit event next, rewrite =>
    allowed rewrite (.event event) ∧ next.Obeys allowed (rewrite.inject event)

theorem run_served {allowed : Rule} :
    ∀ (code : Injection) (rewrite : MethodRewrite), code.Obeys allowed rewrite →
      Served allowed rewrite (code.run rewrite).2
  | done, rewrite, _ | fail _, rewrite, _ => .refl rewrite
  | newLabel next, _, obeys | allocate _ next, _, obeys | storeNew _ next, _, obeys
  | handler _ next, _, obeys | frame _ _ next, _, obeys =>
    (Served.single obeys.1).trans (run_served (next _) _ obeys.2)
  | report _ next, _, obeys | emit _ next, _, obeys =>
    (Served.single obeys.1).trans (run_served next _ obeys.2)

end Injection

/-! ## Runs of layers -/

/-- The label was handed out between two stages of a rewrite. -/
def Label.MadeSince (start rewrite : MethodRewrite) (label : Label) : Prop :=
  Label.firstFresh + start.nextLabel ≤ label.id ∧
    label.id < Label.firstFresh + rewrite.nextLabel

/-- What layers ask for of their own accord is allowed. -/
structure Permits (allowed : EventRule) : Prop where
  label (event : MethodEvent) (start rewrite : MethodRewrite) : allowed event start rewrite .label
  simple (event : MethodEvent) (start rewrite : MethodRewrite) (op : Opcode) :
    allowed event start rewrite (.event (.insn (.simple op)))
  place (event : MethodEvent) (start rewrite : MethodRewrite) (label : Label)
    (made : label.MadeSince start rewrite) : allowed event start rewrite (.event (.label label))
  store (event : MethodEvent) (start rewrite : MethodRewrite) (type : ValueType) :
    allowed event start rewrite (.store type)
  handler (maxStack maxLocals : UInt16) (start rewrite : MethodRewrite) (block : TryBlock)
    (made : block.handler.MadeSince start rewrite) :
    allowed (.maxs maxStack maxLocals) start rewrite (.handler block)
  caught (maxStack maxLocals : UInt16) (start rewrite : MethodRewrite) (label : Label)
    (made : label.MadeSince start rewrite) :
    allowed (.maxs maxStack maxLocals) start rewrite
      (.frame label (.replace [.object ClassName.throwable]))
  fault (event : MethodEvent) (start rewrite : MethodRewrite) (cause : InstrumentError) :
    allowed event start rewrite (.fault cause)

/-- Probe code asks for nothing but what is allowed. -/
def Probe.Obeys (allowed : EventRule)
    (probe : Probe) : Prop :=
  ∀ event start rewrite site, MethodRewrite.Follows start rewrite →
    (probe.code site).Obeys (allowed event start) rewrite

namespace Layer

variable {allowed : EventRule}
  {start rewrite : MethodRewrite}

@[simp] theorem before_probe (layer : Layer) (event : MethodEvent) (rewrite : MethodRewrite) :
    (layer.before event rewrite).1.probe = layer.probe := by
  unfold before
  split <;> first | rfl | (split <;> rfl)

@[simp] theorem after_probe (layer : Layer) (event : MethodEvent) (rewrite : MethodRewrite) :
    (layer.after event rewrite).1.probe = layer.probe := by
  unfold after
  split <;> first | rfl | (split <;> first | rfl | (split <;> rfl))

/-- Layers change what they remember and stay with their probes. -/
theorem stepAll_probes : ∀ (layers : List Layer) (event : MethodEvent) (rewrite : MethodRewrite),
    (stepAll layers event rewrite).1.map probe = layers.map probe
  | [], _, _ => rfl
  | layer :: rest, event, rewrite => by
    simp only [stepAll, List.map_cons, after_probe, before_probe, stepAll_probes rest]

theorem forall_stepAll {good : Probe → Prop} {layers : List Layer} (event : MethodEvent)
    (rewrite : MethodRewrite) (all : ∀ layer ∈ layers, good layer.probe) :
    ∀ layer ∈ (stepAll layers event rewrite).1, good layer.probe := by
  intro layer among
  have probe : layer.probe ∈ layers.map Layer.probe := by
    rw [← stepAll_probes layers event rewrite]
    exact List.mem_map_of_mem among
  obtain ⟨other, known, same⟩ := List.mem_map.1 probe
  exact same ▸ all other known

theorem forall_runAll {good : Probe → Prop} : ∀ {layers : List Layer} (events : List MethodEvent)
    (rewrite : MethodRewrite), (∀ layer ∈ layers, good layer.probe) →
    ∀ layer ∈ (runAll layers events rewrite).1, good layer.probe
  | _, [], _, all => all
  | _, event :: events, rewrite, all => forall_runAll events _ (forall_stepAll event rewrite all)

variable {event : MethodEvent} {layer : Layer} (permits : Permits allowed)

include permits

theorem fire_served (obeys : layer.probe.Obeys allowed) (valueSlot : Option UInt16)
    (follows : start.Follows rewrite) :
    Served (allowed event start) rewrite (layer.fire valueSlot rewrite) := by
  have served := Injection.run_served _ rewrite (obeys event start rewrite
    ⟨rewrite.target.className, layer.probe.location, layer.method, valueSlot⟩ follows)
  unfold fire
  simp only
  split
  · rename_i after ran
    rw [ran] at served
    exact served
  · rename_i cause after ran
    rw [ran] at served
    exact served.trans (.single (permits.fault _ _ _ cause))

theorem capture_served (type : ValueType) :
    Served (allowed event start) rewrite (capture type rewrite).2 := by
  let copy : Opcode := if type.size = 2 then Opcode.dup2 else Opcode.dup
  have copied : Served (allowed event start) rewrite (rewrite.inject (.insn (.simple copy))) :=
    .single (permits.simple _ _ _ copy)
  have stored : Served (allowed event start) rewrite
      ((rewrite.inject (.insn (.simple copy))).storeNew type).2 :=
    copied.trans (.single (permits.store event start _ type))
  unfold capture
  simp only
  split
  · rename_i slot after ran
    rw [ran] at stored
    exact stored
  · rename_i cause after ran
    rw [ran] at stored
    exact stored.trans (.single (permits.fault _ _ _ cause))

theorem fireWith_served (obeys : layer.probe.Obeys allowed) (type : ValueType)
    (follows : start.Follows rewrite) :
    Served (allowed event start) rewrite (layer.fireWith type rewrite) := by
  have captured : Served (allowed event start) rewrite (capture type rewrite).2 :=
    capture_served permits type
  exact captured.trans (fire_served permits obeys _ (follows.trans captured.follows))

/-- A label handed out and placed at once. -/
theorem openRange_served (follows : start.Follows rewrite) :
    Served (allowed event start) rewrite (openRange rewrite).2 := by
  have handed : Served (allowed event start) rewrite rewrite.freshLabel.2 :=
    .single (permits.label _ _ _)
  refine handed.trans (.single (permits.place _ _ _ _ ⟨?_, ?_⟩))
  · exact Nat.add_le_add_left follows.labels _
  · exact Nat.lt_succ_self _

theorem closeRange_served {maxStack maxLocals : UInt16} (obeys : layer.probe.Obeys allowed)
    (opened : Label) (follows : start.Follows rewrite) :
    Served (allowed (.maxs maxStack maxLocals) start) rewrite (layer.closeRange opened rewrite) := by
  let stop : Label := ⟨Label.firstFresh + rewrite.nextLabel⟩
  let handler : Label := ⟨Label.firstFresh + (rewrite.nextLabel + 1)⟩
  let handed := rewrite.freshLabel.2.freshLabel.2
  let stopped := handed.inject (.label stop)
  let placed := stopped.inject (.label handler)
  have low := follows.labels
  have later : handed.nextLabel ≤ placed.nextLabel :=
    ((handed.inject_follows (.label stop)).trans (stopped.inject_follows (.label handler))).labels
  have size : handed.nextLabel = rewrite.nextLabel + 2 := rfl
  -- Both labels are of this call: not placed by anyone before, and known to all that comes after.
  have stopMade (after : MethodRewrite) (more : handed.nextLabel ≤ after.nextLabel) :
      stop.MadeSince start after := by
    constructor <;> simp only [stop] <;> omega
  have handlerMade (after : MethodRewrite) (more : handed.nextLabel ≤ after.nextLabel) :
      handler.MadeSince start after := by
    constructor <;> simp only [handler] <;> omega
  have marked : Served (allowed (.maxs maxStack maxLocals) start) rewrite placed :=
    ((Served.single (permits.label _ _ _)).trans (.single (permits.label _ _ rewrite.freshLabel.2))).trans
      ((Served.single (permits.place _ _ handed stop (stopMade _ (Nat.le_refl _)))).trans
        (.single (permits.place _ _ stopped handler
          (handlerMade _ (handed.inject_follows (.label stop)).labels))))
  have added : Served (allowed (.maxs maxStack maxLocals) start) rewrite
      (placed.addHandler ⟨opened, stop, handler, none⟩).2 :=
    marked.trans (.single (permits.handler _ _ _ _ _ (handlerMade placed later)))
  have most := (placed.perform_follows (.handler ⟨opened, stop, handler, none⟩)).labels
  unfold closeRange
  simp only
  split
  · rename_i cause after ran
    replace ran : placed.addHandler ⟨opened, stop, handler, none⟩ = (.error cause, after) := ran
    rw [ran] at added
    exact added.trans (.single (permits.fault _ _ _ cause))
  · rename_i after ran
    replace ran : placed.addHandler ⟨opened, stop, handler, none⟩ = (.ok (), after) := ran
    rw [ran] at added
    have asked : Served (allowed (.maxs maxStack maxLocals) start) rewrite
        (after.askFrame handler (.replace [.object ClassName.throwable])).2 :=
      added.trans (.single (permits.caught _ _ _ _ _ (handlerMade after (by
        have same : (placed.addHandler ⟨opened, stop, handler, none⟩).2 = after := by rw [ran]
        exact same ▸ Nat.le_trans later most))))
    split
    · rename_i cause last ran
      replace ran : after.askFrame handler (.replace [.object ClassName.throwable]) =
        (.error cause, last) := ran
      rw [ran] at asked
      exact asked.trans (.single (permits.fault _ _ _ cause))
    · rename_i last ran
      replace ran : after.askFrame handler (.replace [.object ClassName.throwable]) =
        (.ok (), last) := ran
      rw [ran] at asked
      have fired := asked.trans (fireWith_served permits obeys ValueType.throwable
        (follows.trans asked.follows))
      exact fired.trans (.single (permits.simple _ _ _ _))

theorem before_served (obeys : layer.probe.Obeys allowed) (follows : start.Follows rewrite) :
    Served (allowed event start) rewrite (layer.before event rewrite).2 := by
  have fired (valueSlot : Option UInt16) :
      Served (allowed event start) rewrite (layer.fire valueSlot rewrite) :=
    fire_served permits obeys valueSlot follows
  have firedWith (type : ValueType) :
      Served (allowed event start) rewrite (layer.fireWith type rewrite) :=
    fireWith_served permits obeys type follows
  unfold before
  split
  · split
    · simp only
      split
      · exact fired none
      · exact firedWith _
    · exact .refl _
  · exact closeRange_served permits obeys _ follows
  · exact .refl _
  · exact fired none
  · exact .refl _
  · exact .refl _
  · exact firedWith _
  · split
    · simp only
      split
      · exact firedWith _
      · exact fired none
    · exact .refl _
  · exact .refl _

theorem after_served (obeys : layer.probe.Obeys allowed) (follows : start.Follows rewrite) :
    Served (allowed event start) rewrite (layer.after event rewrite).2 := by
  have fired (valueSlot : Option UInt16) :
      Served (allowed event start) rewrite (layer.fire valueSlot rewrite) :=
    fire_served permits obeys valueSlot follows
  have firedWith (type : ValueType) :
      Served (allowed event start) rewrite (layer.fireWith type rewrite) :=
    fireWith_served permits obeys type follows
  have opened : Served (allowed event start) rewrite (openRange rewrite).2 :=
    openRange_served permits follows
  unfold after
  split
  · simp only
    split
    · exact .refl _
    · exact fired none
  · simp only
    split
    · exact fired none
    · exact .refl _
  · split
    · exact .refl _
    · exact opened
  · simp only
    split
    · exact opened
    · exact .refl _
  · split
    · simp only
      split
      · exact firedWith _
      · exact fired none
    · exact .refl _
  · exact .refl _

/-- An event goes through all layers to the method, and back through all of them. -/
theorem stepAll_served : ∀ (layers : List Layer) (rewrite : MethodRewrite),
    (∀ layer ∈ layers, layer.probe.Obeys allowed) → start.Follows rewrite →
    ∃ reached, Served (allowed event start) rewrite reached ∧
      Served (allowed event start) (reached.step event) (stepAll layers event rewrite).2
  | [], rewrite, _, _ => ⟨rewrite, .refl rewrite, .refl _⟩
  | layer :: rest, rewrite, obey, follows => by
    have obeys : layer.probe.Obeys allowed := obey layer List.mem_cons_self
    have early : Served (allowed event start) rewrite (layer.before event rewrite).2 :=
      before_served permits obeys follows
    obtain ⟨reached, into, out⟩ := stepAll_served rest (layer.before event rewrite).2
      (fun other among => obey other (List.mem_cons_of_mem _ among)) (follows.trans early.follows)
    have far : start.Follows (stepAll rest event (layer.before event rewrite).2).2 :=
      ((follows.trans (early.trans into).follows).trans (reached.step_follows event)).trans
        out.follows
    have obeys' : (layer.before event rewrite).1.probe.Obeys allowed := by
      rw [before_probe]
      exact obeys
    exact ⟨reached, early.trans into, out.trans (after_served permits obeys' far)⟩

end Layer

/-! ## Whole runs -/

/-- What happens to a method being rewritten: an event of its own, or a request. -/
inductive Action
  | own (event : MethodEvent)
  | request (request : Injection.Request)

def Action.own? : Action → Option MethodEvent
  | own event => some event
  | request _ => none

@[simp] theorem Action.own?_requests (requests : List Injection.Request) :
    (requests.map request).filterMap own? = [] := by
  rw [List.filterMap_map]
  exact List.filterMap_eq_nil_iff.2 fun _ _ => rfl

/-- A run over events of the method, with allowed requests before and after each. -/
inductive Weaves (allowed : EventRule) :
    List MethodEvent → MethodRewrite → List Action → MethodRewrite → Prop
  | done (rewrite : MethodRewrite) : Weaves allowed [] rewrite [] rewrite
  | event {event : MethodEvent} {events : List MethodEvent} {start reached left after : MethodRewrite}
      {early late : List Injection.Request} {actions : List Action}
      (into : Requests (allowed event start) start early reached)
      (out : Requests (allowed event start) (reached.step event) late left)
      (rest : Weaves allowed events left actions after) :
      Weaves allowed (event :: events) start
        (early.map .request ++ .own event :: late.map .request ++ actions) after

theorem Layer.runAll_weaves
    {allowed : EventRule}
    (permits : Permits allowed) : ∀ (events : List MethodEvent) (layers : List Layer)
    (rewrite : MethodRewrite), (∀ layer ∈ layers, layer.probe.Obeys allowed) →
    ∃ actions, Weaves allowed events rewrite actions (runAll layers events rewrite).2
  | [], _, rewrite, _ => ⟨[], .done rewrite⟩
  | event :: events, layers, rewrite, obey => by
    obtain ⟨reached, ⟨early, into⟩, ⟨late, out⟩⟩ :=
      stepAll_served permits layers rewrite obey (.refl rewrite)
    obtain ⟨actions, rest⟩ := runAll_weaves permits events (stepAll layers event rewrite).1
      (stepAll layers event rewrite).2 (forall_stepAll event rewrite obey)
    exact ⟨_, .event into out rest⟩

theorem Weaves.follows {allowed : EventRule}
    {events : List MethodEvent} {actions : List Action} {before after : MethodRewrite}
    (run : Weaves allowed events before actions after) : before.Follows after := by
  induction run with
  | done rewrite => exact .refl rewrite
  | event into out _ ih =>
    exact ((into.follows.trans (MethodRewrite.step_follows _ _)).trans out.follows).trans ih

end ClassWeave
