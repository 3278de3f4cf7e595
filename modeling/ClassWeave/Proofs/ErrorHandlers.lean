/-
# ClassWeave.Proofs.ErrorHandlers -- the code of handlers behind a method

Ranges around a method are opened by the innermost layer first and closed by the outermost
one first, so they overlap.  Where a range is closed its handler begins
(`Layer.Handles`), and all that the layer writes for it, the code of the probe between the
labels and the instruction that throws the exception on, comes behind the range.  The next
range is closed behind that code.

`Layer.closings_close` says so of all ranges of a method at once, by the numbers of
instructions that their ends stand before (`Layer.Closed`), and `Layer.runAll_enclosed`
of the whole code of a method.
-/
import ClassWeave.Proofs.ErrorRanges
import ClassWeave.Proofs.FirstFaults
import ClassWeave.Proofs.HandedLabels
import ClassWeave.Proofs.SnippetEmissions

set_option autoImplicit false

namespace ClassWeave

open MethodRewrite (Adds)

/-- Nothing that tame requests do takes a fault back. -/
theorem Served.fine {came : MethodEvent} {start before after : MethodRewrite}
    (served : Served (tame came start) before after) (fine : after.fault = none) :
    before.fault = none := by
  obtain ⟨requests, run⟩ := served
  induction run with
  | done => exact fine
  | @more rewrite _ request _ permitted _ ih =>
    have goesOn : request ≠ .event .finish := by
      rintro rfl
      exact permitted.elim
    have kept := ih fine
    rw [MethodRewrite.fault_perform _ _ goesOn, Option.or_eq_none_iff] at kept
    exact kept.1

namespace Layer

variable {layer : Layer}

/-! ## The code of a handler -/

/-- What a layer writes when it closes its range: the two labels, and behind them the code of the
handler, in which neither of them is placed again. -/
structure Handles (before after : MethodRewrite) (block : TryBlock) (own : List Node) : Prop where
  adds : Adds (Label.Since before) before after
    (.label block.stop :: .label block.handler :: own) [] [block]
  caught : block.catchType = none
  apart : block.stop ≠ block.handler
  known : ¬ block.stop.Since after ∧ ¬ block.handler.Since after
  clear : .label block.stop ∉ own ∧ .label block.handler ∉ own
  some_ : Snippet.instructions own ≠ []

/-- There is an instruction in a handler. -/
theorem Handles.count_lt {before after : MethodRewrite} {block : TryBlock} {own : List Node}
    (handles : Handles before after block own) : (Snippet.instructions before.body.code).length <
      (Snippet.instructions after.body.code).length := by
  have filled := List.length_pos_iff.2 handles.some_
  have grown : Snippet.instructions after.body.code =
      Snippet.instructions before.body.code ++ Snippet.instructions own := by
    rw [handles.adds.code]
    exact List.filterMap_append
  rw [grown, List.length_append]
  omega

/-- The exception is thrown on. -/
theorem athrow_adds {kind : Label → Prop} {rewrite : MethodRewrite}
    (fine : (rewrite.inject (.insn (.simple Opcode.athrow))).fault = none) :
    Adds kind rewrite (rewrite.inject (.insn (.simple Opcode.athrow)))
      [.insn (.simple Opcode.athrow)] [] [] := by
  have goesOn : MethodEvent.insn (.simple Opcode.athrow) ≠ .finish := nofun
  obtain ⟨_, adds⟩ := rewrite.inject_adds (Nat.le_refl _) goesOn rfl nofun
  have code := rewrite.inject_code fine
  have makes : rewrite.eventMakes (.insn (.simple Opcode.athrow)) = [] :=
    if_neg fun made => absurd made.2 (by decide)
  rw [makes] at code
  refine ⟨code, adds.blocks, adds.handlers, adds.labels, fun label among => ?_⟩
  cases List.mem_singleton.1 among

/-- The block of the range that is closed now, with the next two labels. -/
def closedBlock (start : Label) (rewrite : MethodRewrite) : TryBlock :=
  ⟨start, ⟨Label.firstFresh + rewrite.nextLabel⟩, ⟨Label.firstFresh + (rewrite.nextLabel + 1)⟩, none⟩

/-- The range is closed and its handler stands: its labels are placed and its block is registered. -/
theorem rangeClosed_adds {start : Label} {rewrite closed : MethodRewrite}
    (stands : rangeClosed? start rewrite = some closed) :
    Adds (Label.Since rewrite) rewrite closed
        [.label (closedBlock start rewrite).stop, .label (closedBlock start rewrite).handler] []
        [closedBlock start rewrite] ∧
      rewrite.nextLabel + 2 ≤ closed.nextLabel := by
  let block := closedBlock start rewrite
  let handed := rewrite.freshLabel.2.freshLabel.2
  let placed := (handed.inject (.label block.stop)).inject (.label block.handler)
  -- Two labels are made, both are placed, then the block is registered and its frame asked for.
  have marks : Adds (Label.Since rewrite) handed placed [.label block.stop, .label block.handler] []
      [] := by
    have stop := (handed.injectLabel_adds block.stop).mono fun label same =>
      (same ▸ Nat.le_refl _ : label.Since rewrite)
    have handler := ((handed.inject (.label block.stop)).injectLabel_adds block.handler).mono
      fun label same => (same ▸ Nat.add_le_add_left (Nat.le_succ _) _ : label.Since rewrite)
    exact stop.trans handler
  obtain ⟨registered, added, asked⟩ : ∃ registered,
      placed.addHandler block = (.ok (), registered) ∧
        registered.askFrame block.handler (.replace [.object ClassName.throwable]) =
          (.ok (), closed) := by
    unfold rangeClosed? at stands
    simp only at stands
    split at stands
    · cases stands
    · rename_i added
      split at stands
      · cases stands
      · rename_i asked
        cases stands
        exact ⟨_, added, asked⟩
  have registers : Adds (Label.Since rewrite) placed registered [] [] [block] := by
    have adds : Adds (Label.Since rewrite) placed (placed.addHandler block).2 [] [] [block] :=
      placed.addHandler_adds (by rw [added])
    rwa [added] at adds
  have grants : Adds (Label.Since rewrite) registered closed [] [] [] := by
    have adds : Adds (Label.Since rewrite) registered (registered.askFrame block.handler
        (.replace [.object ClassName.throwable])).2 [] [] [] := registered.askFrame_adds _ _
    rwa [asked] at adds
  have start_ : Adds (Label.Since rewrite) rewrite handed [] [] [] :=
    .quiet rfl rfl rfl (Nat.le_add_right _ 2)
  exact ⟨start_.trans (marks.trans (registers.trans grants)),
    (marks.trans (registers.trans grants)).labels⟩

/-- If nothing goes wrong the code of the probe runs behind the labels, and the exception is thrown
on. -/
theorem closeRange_of_fine {start : Label} {rewrite : MethodRewrite}
    (fine : (layer.closeRange start rewrite).fault = none) :
    ∃ closed, rangeClosed? start rewrite = some closed ∧ layer.closeRange start rewrite =
      (layer.fireWith ValueType.throwable closed).inject (.insn (.simple Opcode.athrow)) := by
  have failed {reached : MethodRewrite} {cause : InstrumentError}
      (none_ : (reached.fail cause).fault = none) : False := by
    rw [MethodRewrite.fault_fail, Option.or_eq_none_iff] at none_
    cases none_.2
  revert fine
  unfold closeRange rangeClosed?
  simp only
  generalize (rewrite.freshLabel.2.freshLabel.2.inject _).inject _ = placed
  generalize rewrite.freshLabel.2.freshLabel.1 = handler
  rcases placed.addHandler ⟨start, rewrite.freshLabel.1, handler, none⟩ with ⟨_ | _, registered⟩
  · exact fun fine => (failed fine).elim
  · simp only
    rcases registered.askFrame handler (.replace [.object ClassName.throwable]) with
      ⟨_ | _, granted⟩
    · exact fun fine => (failed fine).elim
    · exact fun _ => ⟨granted, rfl, rfl⟩

theorem closeRange_handles (obeys : layer.probe.Obeys tame) (start : Label)
    {rewrite : MethodRewrite} (fine : (layer.closeRange start rewrite).fault = none) :
    ∃ block own, block.start = start ∧
      Handles rewrite (layer.closeRange start rewrite) block own := by
  obtain ⟨closed, stands, same⟩ := closeRange_of_fine fine
  rw [same] at fine ⊢
  obtain ⟨marks, late⟩ := rangeClosed_adds stands
  obtain ⟨nodes, fires⟩ := fireWith_adds obeys ValueType.throwable closed
  have throws : Adds (Label.Since closed) _ _ _ [] [] := athrow_adds fine
  have own := fires.trans throws
  have whole := marks.trans (own.mono fun _ new => new.earlier marks.labels)
  have first (after : MethodRewrite) (more : closed.nextLabel ≤ after.nextLabel) :
      ¬ (closedBlock start rewrite).stop.Since after ∧
        ¬ (closedBlock start rewrite).handler.Since after := by
    simp only [Label.Since, closedBlock]
    omega
  refine ⟨closedBlock start rewrite, nodes ++ [Node.insn (.simple Opcode.athrow)], rfl, whole, rfl,
    ?_, first _ own.labels, ⟨fun among => (first _ (Nat.le_refl _)).1 (own.kind _ among),
      fun among => (first _ (Nat.le_refl _)).2 (own.kind _ among)⟩, ?_⟩
  · simp only [closedBlock, ne_eq, Label.mk.injEq]
    omega
  · simp [Snippet.instructions, Node.instruction?]

/-! ## All ranges -/

/-- In a run of actions a layer closes its range before the instruction with a number, and neither of
the labels is placed again. -/
structure Closes (layer : Layer) (before : MethodRewrite) (actions : List Action)
    (block : TryBlock) (number : Nat) : Prop where
  caught : block.catchType = none
  closes : ∃ (early late : List Action) (reached : MethodRewrite) (own rest : List Node),
    early.foldl MethodRewrite.act before = reached ∧
    actions = early ++ ((layer.closeRangeRequests block.start reached).map .request ++ late) ∧
    (Snippet.instructions reached.body.code).length = number ∧
    (layer.closeRange block.start reached).body.code =
      reached.body.code ++ .label block.stop :: .label block.handler :: own ∧
    (actions.foldl MethodRewrite.act before).body.code =
      reached.body.code ++ .label block.stop :: .label block.handler :: (own ++ rest) ∧
    .label block.stop ∉ .label block.handler :: (own ++ rest) ∧
    .label block.handler ∉ own ++ rest

namespace Closes

variable {before : MethodRewrite} {actions : List Action} {block : TryBlock} {number : Nat}

theorem behind {more : List Action}
    (closes : layer.Closes (more.foldl MethodRewrite.act before) actions block number) :
    layer.Closes before (more ++ actions) block number := by
  obtain ⟨caught, early, late, reached, own, rest, stands, parts, count, own_, whole, again⟩ := closes
  refine ⟨caught, more ++ early, late, reached, own, rest, ?_, ?_, count, own_, ?_, again⟩
  · rw [List.foldl_append, stands]
  · rw [parts, List.append_assoc]
  · rw [List.foldl_append, whole]

/-- What comes later and writes nothing changes nothing. -/
theorem ahead {more : List Action} (closes : layer.Closes before actions block number)
    (same : ((actions ++ more).foldl MethodRewrite.act before).body.code =
      (actions.foldl MethodRewrite.act before).body.code) :
    layer.Closes before (actions ++ more) block number := by
  obtain ⟨caught, early, late, reached, own, rest, stands, parts, count, own_, whole, again⟩ := closes
  refine ⟨caught, early, late ++ more, reached, own, rest, stands, ?_, count, own_, ?_, again⟩
  · rw [parts, List.append_assoc, List.append_assoc]
  · rw [same, whole]

end Closes

/-- All layers for errors close their ranges, one behind the other. -/
structure Closed (opened before : MethodRewrite) (requests : List Injection.Request)
    (layers : List Layer) (nodes : List Node) (closed : List (TryBlock × Nat)) : Prop where
  fine : before.fault = none
  adds : Adds (Label.Since before) before (requests.foldl MethodRewrite.perform before) nodes []
    (closed.map Prod.fst)
  each : List.Forall₂ (fun layer part =>
    Opens opened part.1.start ∧ layer.Closes before (requests.map .request) part.1 part.2)
      layers closed
  rising : (closed.map Prod.snd).Pairwise (· < ·)
  behind : ∀ part ∈ closed, (Snippet.instructions before.body.code).length ≤ part.2

/-- A layer closes its range, and all those behind it do so after that. -/
theorem Closed.cons {opened before : MethodRewrite} {requests : List Injection.Request}
    {layers : List Layer} {block : TryBlock} {own nodes : List Node}
    {closed : List (TryBlock × Nat)} (opens : Opens opened block.start) (fine : before.fault = none)
    (handles : Handles before (layer.closeRange block.start before) block own)
    (others : Closed opened (layer.closeRange block.start before) requests layers nodes closed) :
    Closed opened before (layer.closeRangeRequests block.start before ++ requests) (layer :: layers)
      (.label block.stop :: .label block.handler :: (own ++ nodes))
      ((block, (Snippet.instructions before.body.code).length) :: closed) := by
  have whole := handles.adds.trans (others.adds.mono fun _ new => new.earlier handles.adds.labels)
  have performed : requests.foldl MethodRewrite.perform (layer.closeRange block.start before) =
      (layer.closeRangeRequests block.start before ++ requests).foldl MethodRewrite.perform
        before := by
    rw [List.foldl_append, foldl_closeRangeRequests]
  rw [performed] at whole
  -- A label of this layer is known before the later ones start, and those place only their own.
  have apart (label : Label) (known : ¬ label.Since (layer.closeRange block.start before)) :
      .label label ∉ nodes := fun among => known (others.adds.kind label among)
  have above : ∀ part ∈ closed, (Snippet.instructions before.body.code).length < part.2 :=
    fun part among => Nat.lt_of_lt_of_le handles.count_lt (others.behind part among)
  refine ⟨fine, whole, .cons ⟨opens, handles.caught, [], requests.map .request, before, own, nodes,
    rfl, List.map_append, rfl, handles.adds.code, ?_, ?_, ?_⟩ ?_, ?_, ?_⟩
  · rw [List.foldl_map]
    exact whole.code
  · simpa [handles.apart, handles.clear.1] using apart _ handles.known.1
  · simpa [handles.clear.2] using apart _ handles.known.2
  · refine others.each.imp fun other part => And.imp_right fun closes => ?_
    have reached : ((layer.closeRangeRequests block.start before).map .request).foldl
        MethodRewrite.act before = layer.closeRange block.start before :=
      List.foldl_map.trans (foldl_closeRangeRequests _ _ _)
    rw [List.map_append]
    exact Closes.behind (reached ▸ closes)
  · refine .cons (fun number among => ?_) others.rising
    obtain ⟨part, within, rfl⟩ := List.mem_map.1 among
    exact above part within
  · exact List.forall_mem_cons.2 ⟨Nat.le_refl _, fun part among => Nat.le_of_lt (above part among)⟩

theorem closings_close {opened : MethodRewrite} {layers open_ : List Layer}
    (each : List.Forall₂ (Opened opened) layers open_)
    (obey : ∀ layer ∈ layers, layer.probe.Obeys tame) {before : MethodRewrite}
    (fine : ((closings open_ before).foldl MethodRewrite.perform before).fault = none) :
    ∃ nodes closed, Closed opened before (closings open_ before) layers nodes closed := by
  induction each generalizing before with
  | nil => exact ⟨[], [], fine, .refl before, .nil, .nil, nofun⟩
  | @cons layer _ layers open_ one _ ih =>
    obtain ⟨start, rfl, opens⟩ := one.opened
    have obeys := obey layer List.mem_cons_self
    rw [closings_opened one.guards] at fine ⊢
    rw [List.foldl_append, foldl_closeRangeRequests] at fine
    obtain ⟨rest, closed, others⟩ := ih
      (fun other among => obey other (List.mem_cons_of_mem _ among)) fine
    have served : Served (tame (.maxs 0 0) before) before (layer.closeRange start before) :=
      closeRange_served permits_tame obeys start (.refl before)
    obtain ⟨block, own, rfl, handles⟩ := closeRange_handles obeys start others.fine
    exact ⟨_, _, .cons opens (served.fine others.fine) handles others⟩

/-! ## Whole methods -/

section Whole

variable {layers : List Layer} {amid : List MethodEvent}
  {maxStack maxLocals maxStack' maxLocals' : UInt16} {start : MethodRewrite}

/-- The layers that open their ranges on entry are those that close them at the end. -/
theorem runAll_closes (obey : ∀ layer ∈ layers, layer.probe.Obeys tame)
    (ready : ∀ layer ∈ layers, layer.Ready) (calm : ∀ event ∈ amid, event.Amid) :
    let entered := stepAll layers (.sizes maxStack maxLocals) start
    let reached := runAll entered.1 amid entered.2
    ((closings reached.1 reached.2).foldl MethodRewrite.perform reached.2).fault = none →
    ∃ behind closed, Closed entered.2 reached.2 (closings reached.1 reached.2)
      (layers.filter guarding) behind closed := by
  intro entered reached fine
  have opened := stepAll_opened maxStack maxLocals obey ready start
  have steady : reached.1.filter guarding = entered.1.filter guarding := by
    refine runAll_steady calm (fun layer among => ?_) entered.2
    obtain ⟨before, among', one⟩ := Outcome.exists_of_forall₂ opened layer among
    obtain ⟨label, rfl, _⟩ := one.opened
    exact ready_holding (ready before (List.mem_filter.1 among').1) _
  rw [closings_filter, steady] at fine ⊢
  exact closings_close opened (fun layer among => obey layer (List.mem_filter.1 among).1) fine

/-- What a method is written in: on entry, in between, and when all ranges are closed. -/
structure Parts (layers : List Layer) (amid : List MethodEvent) (start : MethodRewrite)
    (entered reached : List Layer × MethodRewrite) (ahead between behind : List Node)
    (closed : List (TryBlock × Nat)) : Prop where
  first : Adds (fun label => label.Since start ∨ none = some label) start entered.2 ahead [] []
  middle : Adds (fun label => label.Since entered.2 ∨ label ∈ amid.filterMap MethodEvent.label?)
    entered.2 reached.2 between (amid.filterMap MethodEvent.block?) []
  last : Closed entered.2 reached.2 (closings reached.1 reached.2) (layers.filter guarding) behind
    closed

theorem runAll_parts (obey : ∀ layer ∈ layers, layer.probe.Obeys tame)
    (ready : ∀ layer ∈ layers, layer.Ready) (calm : ∀ event ∈ amid, event.Amid) :
    let entered := stepAll layers (.sizes maxStack maxLocals) start
    let reached := runAll entered.1 amid entered.2
    ((closings reached.1 reached.2).foldl MethodRewrite.perform reached.2).fault = none →
    ∃ ahead between behind closed,
      Parts layers amid start entered reached ahead between behind closed := by
  intro entered reached fine
  have entry : MethodEvent.sizes maxStack maxLocals ≠ .finish := nofun
  have first : ∃ nodes, Adds (fun label => label.Since start ∨ none = some label) start entered.2
      nodes [] [] := stepAll_adds (fun ⟨_, _, last⟩ => nomatch last) entry obey start
  have middle : ∃ nodes, Adds (fun label => label.Since entered.2 ∨
      label ∈ amid.filterMap MethodEvent.label?) entered.2 reached.2 nodes
        (amid.filterMap MethodEvent.block?) [] :=
    runAll_adds (fun event among => (calm event among).plain) (forall_stepAll _ _ obey) entered.2
  obtain ⟨ahead, first⟩ := first
  obtain ⟨between, middle⟩ := middle
  obtain ⟨behind, closed, last⟩ := runAll_closes obey ready calm fine
  exact ⟨ahead, between, behind, closed, first, middle, last⟩

namespace Parts

variable {entered reached : List Layer × MethodRewrite} {ahead between behind : List Node}
  {closed : List (TryBlock × Nat)}
  (parts : Parts layers amid start entered reached ahead between behind closed)

include parts

/-- All that is appended from the start to the end. -/
theorem adds : Adds (fun _ => True) start
    ((closings reached.1 reached.2).foldl MethodRewrite.perform reached.2)
    (ahead ++ (between ++ behind)) (amid.filterMap MethodEvent.block?) (closed.map Prod.fst) := by
  have all {kind : Label → Prop} (label : Label) (_ : kind label) : True := trivial
  have whole := (parts.first.mono all).trans ((parts.middle.mono all).trans
    (parts.last.adds.mono all))
  rwa [List.nil_append, List.append_nil, List.nil_append, List.nil_append] at whole

/-- Labels that are placed outside of the method's own code are new. -/
theorem outside {label : Label} (among : .label label ∈ ahead ∨ .label label ∈ behind) :
    label.isFresh = true := by
  rcases among with among | among
  · rcases parts.first.kind label among with new | none_
    · exact new.isFresh
    · cases none_
  · exact (parts.last.adds.kind label among).isFresh

/-- The label of an open range is not placed again. -/
theorem apart (old : ∀ label ∈ amid.filterMap MethodEvent.label?, label.isFresh = false)
    {label : Label} (opens : Opens entered.2 label) :
    .label label ∉ between ∧ .label label ∉ behind := by
  constructor
  · intro among
    rcases parts.middle.kind _ among with new | own
    · exact opens.known new
    · exact Bool.false_ne_true ((old _ own).symm.trans opens.fresh)
  · intro among
    exact opens.known ((parts.last.adds.kind _ among).earlier parts.middle.labels)

end Parts

/-- The new code of a method with ranges around it: what layers write on entry, the code of the method
with all that comes into it, and the handlers.  Each range begins in the first part, at a label that
is not placed again, and is closed behind the second one. -/
structure Enclosed (layers : List Layer) (events : List MethodEvent) (start : MethodRewrite)
    (ahead between behind : List Node) (closed : List (TryBlock × Nat)) : Prop where
  code : (runAll layers events start).2.body.code = ahead ++ (between ++ behind)
  blocks : (runAll layers events start).2.body.tryBlocks.size =
    (events.filterMap MethodEvent.block?).length
  handlers : (runAll layers events start).2.ledger.handlers.toList = closed.map Prod.fst
  outside : ∀ label, .label label ∈ ahead ∨ .label label ∈ behind → label.isFresh = true
  each : List.Forall₂ (fun layer part =>
    .label part.1.start ∉ between ∧ .label part.1.start ∉ behind ∧
      layer.Closes start (record layers events start) part.1 part.2) (layers.filter guarding) closed
  rising : (closed.map Prod.snd).Pairwise (· < ·)
  above : ∀ part ∈ closed, (Snippet.instructions (ahead ++ between)).length ≤ part.2

/-- A method that has come to its end without a fault is enclosed by the ranges of its layers. -/
theorem runAll_enclosed (obey : ∀ layer ∈ layers, layer.probe.Obeys tame)
    (ready : ∀ layer ∈ layers, layer.Ready) (calm : ∀ event ∈ amid, event.Amid)
    (old : ∀ label ∈ amid.filterMap MethodEvent.label?, label.isFresh = false)
    (empty : start.body = .empty) (nobody : start.ledger.handlers = #[])
    (fine : (runAll layers (.sizes maxStack maxLocals :: (amid ++ [.maxs maxStack' maxLocals']))
      start).2.fault = none) :
    ∃ ahead between behind closed, Enclosed layers
      (.sizes maxStack maxLocals :: (amid ++ [.maxs maxStack' maxLocals'])) start ahead between
        behind closed := by
  let events := MethodEvent.sizes maxStack maxLocals :: amid
  have final := runAll_ended events maxStack' maxLocals' layers start
  have recorded := record_ended events maxStack' maxLocals' layers start
  have arrived : (record layers events start).foldl MethodRewrite.act start =
      (runAll layers events start).2 := (runAll_record _ _ _).symm
  obtain ⟨ahead, between, behind, closed, parts⟩ :=
    runAll_parts obey ready calm ((congrArg _ final).symm.trans fine)
  obtain ⟨code, blocks, handlers, _, _⟩ := parts.adds
  rw [empty] at code blocks
  rw [nobody] at handlers
  refine ⟨ahead, between, behind, closed, ?_, ?_, ?_, fun _ => parts.outside, ?_,
    parts.last.rising, ?_⟩
  · exact (congrArg (·.body.code) final).trans code
  -- The method tells its blocks between the sizes, so the two events at the ends add none.
  · have told : (MethodEvent.sizes maxStack maxLocals :: (amid ++ [.maxs maxStack' maxLocals'])
        ).filterMap MethodEvent.block? = amid.filterMap MethodEvent.block? := by
      rw [List.filterMap_cons_none rfl, List.filterMap_append]
      exact List.append_nil _
    rw [told]
    exact (congrArg (·.body.tryBlocks.size) final).trans (congrArg List.length blocks)
  · exact (congrArg (·.ledger.handlers.toList) final).trans handlers
  · refine parts.last.each.imp fun layer part ⟨opens, closed⟩ => ?_
    obtain ⟨between_, behind_⟩ := parts.apart old opens
    refine ⟨between_, behind_, ?_⟩
    show layer.Closes start (record layers (events ++ _) start) _ _
    rw [recorded]
    refine Closes.behind (Closes.ahead (arrived.symm ▸ closed) ?_)
    rw [List.foldl_append]
    rfl
  · intro part among
    have count := parts.last.behind part among
    rw [parts.middle.code, parts.first.code, empty] at count
    exact count

end Whole

end Layer

end ClassWeave
