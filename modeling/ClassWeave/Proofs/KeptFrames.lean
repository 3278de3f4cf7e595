/-
# ClassWeave.Proofs.KeptFrames -- frames of a method in its new stack map

A frame of the method holds on every way to its instruction, and it is recorded for the
label of that instruction.  Injected snippets may have frames recorded before it and
behind it for the same place; those behind it say the same (`Weaves.moved`), and of the
frames of one offset the last is written.  So the new stack map says at the label what
the frame of the method says, of the slots that the method knows and of the operand
stack (`weaveMethods_keeps_frames`).

That holds of frames that are not passed over.  When injected code has asked for a frame
since the last instruction, the frame of the method is left out, and what is written
instead says what the simulation knew before the other ways to the instruction came in:
`Sample.jumping` is a method whose new stack map claims a type that is not there.
-/
import ClassWeave.Proofs.CodePayload
import ClassWeave.Proofs.Decoding
import ClassWeave.Proofs.FrameEvents

set_option autoImplicit false

namespace ClassWeave

/-! ## The events around a frame -/

namespace CodeAttribute

/-- What is not among the later elements is among the first ones. -/
theorem split_ahead {α : Type} {early late before after : List α} {item : α}
    (same : early ++ late = before ++ item :: after) (apart : item ∉ late) :
    ∃ more, early = before ++ item :: more ∧ after = more ++ late := by
  rcases List.append_eq_append_iff.1 same with ⟨more, rfl, rest⟩ | ⟨more, rfl, rest⟩
  · exact absurd (by simp [rest]) apart
  · cases more with
    | nil => exact absurd (rest ▸ List.mem_cons_self : item ∈ [] ++ late) apart
    | cons first more =>
      cases rest
      exact ⟨more, rfl, rfl⟩

/-- A frame among the events of a body: it is that of the instruction at `offset`, whose label and
lines are told right before it, and which is told right behind it. -/
structure FrameComes (code : CodeAttribute) (entries : Entries) (early late : List MethodEvent)
    (offset : Nat) (insn : Instruction) : Prop where
  around : ∃ (lines : Std.TreeMap Nat (List UInt16)) (frames : Std.TreeMap Nat PinnedFrame)
    (first second : List (Nat × Instruction)) (blocks : List TryBlock) (rest : List MethodEvent),
    decode entries code.code = .ok (first ++ (offset, insn) :: second) ∧
    List.Forall₂ (TellsBlock entries code.code.length) code.handlers blocks ∧
    early = MethodEvent.sizes code.maxStack code.maxLocals ::
      (blocks.map MethodEvent.tryBlock ++ tellItems lines frames first ++ opening lines offset) ∧
    late = MethodEvent.insn insn.normal ::
      (tellItems lines frames second ++ MethodEvent.label ⟨code.code.length⟩ :: rest) ∧
    ∀ event ∈ rest, event.Silent

/-- Every frame among the events of a body is one that the body has, at an instruction. -/
theorem frame_comes {code : CodeAttribute} {entries : Entries}
    {className methodName descriptor : String} {isStatic : Bool} {early late : List MethodEvent}
    {locals stack : List FrameType}
    (body : (code.tell entries className methodName descriptor isStatic).Told
      (early ++ .frame locals stack :: late)) :
    ∃ offset insn frames, code.FrameComes entries early late offset insn ∧
      code.frames entries className methodName descriptor isStatic = .ok frames ∧
      ⟨⟨offset⟩, locals, stack⟩ ∈ frames := by
  obtain ⟨items, blocks, lines, frames, rest, decoded, tells, shape, known, silent⟩ := tell_told body
  have before : .frame locals stack ∉ MethodEvent.sizes code.maxStack code.maxLocals ::
      blocks.map MethodEvent.tryBlock := by simp
  have behind : .frame locals stack ∉ MethodEvent.label ⟨code.code.length⟩ :: rest := by
    intro among
    rcases List.mem_cons.1 among with same | among
    · cases same
    · exact silent _ among
  obtain ⟨more, rfl, inner⟩ := split_behind shape.symm before
  obtain ⟨after, told, rfl⟩ := split_ahead inner behind
  have items_ : tellItems lines (framesByOffset frames) items = more ++ .frame locals stack :: after :=
    told
  obtain ⟨offset, insn, replays⟩ := replays_of_mem items_
  obtain ⟨first, second, rfl, rfl, rfl⟩ := replays.around
  obtain ⟨⟨label, _, _⟩, found, rfl, rfl⟩ := replays.own
  obtain ⟨among, at_⟩ := mem_framesByOffset found
  refine ⟨offset, insn, frames, ⟨lines, framesByOffset frames, first, second, blocks, rest, decoded,
    tells, ?_, rfl, silent⟩, known, ?_⟩
  · simp
  · rwa [← show label = ⟨offset⟩ from at_]

end CodeAttribute

/-! ## A frame that is recorded for its instruction -/

/-- In the end a frame is recorded at the label of `offset`, behind which an instruction stands.
Whatever was recorded later is as good, or pinned behind the instruction. -/
structure MethodRewrite.Pins (rewrite : MethodRewrite) (offset : Nat) (good : PinnedFrame → Prop) :
    Prop where
  pinned : ∃ (nodes early late : List Node) (insn : Instruction)
    (before first rest : List PinnedFrame) (frame : PinnedFrame),
    rewrite.body.code = nodes ++ .label ⟨offset⟩ :: (early ++ .insn insn :: late) ∧
    .label ⟨offset⟩ ∉ early ++ .insn insn :: late ∧
    rewrite.body.frames.toList = before ++ frame :: (first ++ rest) ∧
    frame.label = ⟨offset⟩ ∧ good frame ∧ (∀ other ∈ first, good other) ∧
    ∀ other ∈ rest, .label other.label ∈ late

/-- Of what is recorded for the offset of the label, the good is written. -/
theorem MethodRewrite.Pins.kept {rewrite : MethodRewrite} {offset : Nat}
    {good : PinnedFrame → Prop} (pins : rewrite.Pins offset good) {first entries : Entries}
    {layout : Layout} {assembled : AssembledCode}
    (assembles : layout.Assembles first entries rewrite.body.code assembled)
    {rows : List (Nat × PinnedFrame)}
    (chosen : StackMap.kept assembled rewrite.body.frames.toList = .ok rows) :
    ∃ place frame, assembled.offsetOf ⟨offset⟩ = .ok place ∧ (place, frame) ∈ rows ∧
      good frame := by
  obtain ⟨nodes, early, late, insn, before, same, rest, frame, code, once, recorded, label, own,
    all, behind⟩ := pins.pinned
  have lays := assembles.lays
  rw [code] at lays
  obtain ⟨middle, _, onwards, known⟩ := lays.label_offset once
  -- The instruction behind the label takes room, so what is placed behind it has another offset.
  obtain ⟨reached, passed, one | ⟨one, later⟩⟩ := onwards.append_inv
  have ahead : middle.size ≤ reached.size := passed.size_le
  cases one with
  | @insn _ pieces _ filled _ =>
    have place : assembled.offsetOf ⟨offset⟩ = .ok middle.size :=
      assembles.offsetOf_eq_ok.2 known
    have inside : middle.size < assembled.code.length := by
      have room := later.size_le
      simp only at room
      rw [assembles.size]
      omega
    rw [recorded] at chosen
    obtain ⟨other, among, fine⟩ := StackMap.kept_of_recorded chosen (label ▸ place) inside own
      fun other among here => by
        rcases List.mem_append.1 among with soon | late_
        · exact all other soon
        · obtain ⟨far, found, beyond⟩ := later.label_ge (behind other late_)
          have same := (assembles.offsetOf_eq_ok.1 here).symm.trans found
          simp only at beyond
          cases same
          omega
    exact ⟨middle.size, other, place, among, fine⟩

/-! ## The run up to the frame, and from there on -/

/-- Idle events go through the layers one after the other. -/
theorem Layer.runAll_idles : ∀ (events : List MethodEvent) (layers : List Layer)
    (rewrite : MethodRewrite), (∀ event ∈ events, event.Idle) →
    (runAll layers events rewrite).2 = events.foldl MethodRewrite.step rewrite
  | [], _, _, _ => rfl
  | event :: events, layers, rewrite, idle => by
    have one := stepAll_idle (idle event List.mem_cons_self) layers rewrite
    have rest := runAll_idles events (stepAll layers event rewrite).1
      (stepAll layers event rewrite).2 fun other among => idle other (List.mem_cons_of_mem _ among)
    rw [List.foldl_cons, ← one]
    exact rest

/-- The label of an instruction has been told, and its lines. -/
theorem MethodRewrite.standsAt_opening (lines : Std.TreeMap Nat (List UInt16)) (offset : Nat)
    (layers : List Layer) (rewrite : MethodRewrite) :
    (Layer.runAll layers (CodeAttribute.opening lines offset) rewrite).2.StandsAt ⟨offset⟩ := by
  have idle : ∀ event ∈ CodeAttribute.opening lines offset, event.Idle := by
    intro event among
    rcases List.mem_cons.1 among with rfl | line
    · trivial
    · obtain ⟨number, _, rfl⟩ := List.mem_map.1 line
      trivial
  rw [Layer.runAll_idles _ layers rewrite idle, CodeAttribute.opening, List.foldl_cons]
  have later (numbers : List UInt16) : ∀ {rewrite : MethodRewrite}, rewrite.StandsAt ⟨offset⟩ →
      ((numbers.map (MethodEvent.line · ⟨offset⟩)).foldl step rewrite).StandsAt ⟨offset⟩ := by
    induction numbers with
    | nil => exact id
    | cons number numbers ih => exact fun stands => ih (stands.line number)
  exact later _ (rewrite.standsAt_placeLabel ⟨offset⟩)

namespace CodeAttribute

section Members

variable {lines : Std.TreeMap Nat (List UInt16)} {frames : Std.TreeMap Nat PinnedFrame}
  {event : MethodEvent}

theorem event_of_mem_tellItems {items : List (Nat × Instruction)}
    (among : event ∈ tellItems lines frames items) :
    ∃ item ∈ items, event = .label ⟨item.1⟩ ∨ event.Aside ∨ event = .insn item.2.normal := by
  obtain ⟨⟨offset, insn⟩, known, told⟩ := List.mem_flatMap.1 among
  simp only [tellInstruction_eq, List.mem_cons, List.mem_append, List.not_mem_nil, or_false] at told
  exact ⟨_, known, told.imp_right (Or.imp_left aside_of_mem)⟩

theorem event_of_mem_opening {offset : Nat} (among : event ∈ opening lines offset) :
    event = .label ⟨offset⟩ ∨ event.Aside := by
  rcases List.mem_cons.1 among with same | line
  · exact .inl same
  · obtain ⟨number, _, rfl⟩ := List.mem_map.1 line
    exact .inr trivial

end Members

namespace FrameComes

variable {code : CodeAttribute} {entries : Entries} {early late : List MethodEvent} {offset : Nat}
  {insn : Instruction}

/-- Sizes come first, and behind them blocks, labels, lines, frames and instructions. -/
theorem early_events (comes : code.FrameComes entries early late offset insn) :
    ∃ more, early = .sizes code.maxStack code.maxLocals :: more ∧ ∀ event ∈ more,
      (∃ row ∈ code.handlers, ∃ block, TellsBlock entries code.code.length row block ∧
        event = .tryBlock block) ∨ (∃ label, event = .label label) ∨ event.Aside ∨
      ∃ insn : Instruction, event = .insn insn.normal ∧ insn.Decoded entries code.code.length := by
  obtain ⟨lines, frames, first, second, blocks, rest, decoded, tells, rfl, _⟩ := comes.around
  refine ⟨_, rfl, fun event among => ?_⟩
  simp only [List.mem_append] at among
  rcases among with (range | item) | opened
  · obtain ⟨block, known, rfl⟩ := List.mem_map.1 range
    obtain ⟨row, among, tells⟩ := Outcome.exists_of_forall₂ tells block known
    exact .inl ⟨row, among, block, tells, rfl⟩
  · obtain ⟨item, known, same | aside | same⟩ := event_of_mem_tellItems item
    · exact .inr (.inl ⟨_, same⟩)
    · exact .inr (.inr (.inl aside))
    · exact .inr (.inr (.inr ⟨_, same, (decode_spec decoded).decoded item (by simp [known])⟩))
  · rcases event_of_mem_opening opened with same | aside
    · exact .inr (.inl ⟨_, same⟩)
    · exact .inr (.inr (.inl aside))

/-- Only the first event tells sizes, and none the end. -/
theorem early_sizes (comes : code.FrameComes entries early late offset insn) :
    ∃ more, early = .sizes code.maxStack code.maxLocals :: more ∧
      (∀ event ∈ more, ¬ event.TellsSizes) ∧ ∀ event ∈ early, event ≠ .finish := by
  obtain ⟨more, rfl, each⟩ := comes.early_events
  have others : ∀ event ∈ more, ¬ event.TellsSizes ∧ event ≠ .finish := by
    intro event among
    rcases each event among with ⟨_, _, _, _, rfl⟩ | ⟨_, rfl⟩ | aside | ⟨_, rfl, _⟩
    · exact ⟨id, by simp⟩
    · exact ⟨id, by simp⟩
    · exact ⟨fun sizes => by cases event <;> trivial, aside.writes_between.1⟩
    · exact ⟨id, by simp⟩
  refine ⟨more, rfl, fun event among => (others event among).1, ?_⟩
  rw [List.forall_mem_cons]
  exact ⟨by simp, fun event among => (others event among).2⟩

/-- Before the frame, only labels of offsets are made known. -/
theorem early_ahead (comes : code.FrameComes entries early late offset insn)
    (small : code.code.length ≤ 0xFFFF) :
    ∀ event ∈ early, ∀ label ∈ event.ahead, label.id < Label.firstFresh := by
  obtain ⟨more, rfl, each⟩ := comes.early_events
  rw [List.forall_mem_cons]
  refine ⟨List.forall_mem_nil _, fun event among label ahead => ?_⟩
  rcases each event among with ⟨row, _, block, tells, rfl⟩ | ⟨_, rfl⟩ | aside | ⟨insn, rfl, decoded⟩
  · rw [List.mem_singleton.1 ahead, tells.handler]
    exact row.handler.toNat_lt
  · cases ahead
  · cases event <;> first | exact aside.elim | cases ahead
  · have leads : label ∈ insn.normal.targets := ahead
    rw [Instruction.targets_normal] at leads
    have inside := decoded.inside label leads
    simp only [Label.firstFresh]
    omega

/-- Labels of offsets are not handed out. -/
theorem isFresh_eq_false (comes : code.FrameComes entries early late offset insn)
    (small : code.code.length ≤ 0xFFFF) : (⟨offset⟩ : Label).isFresh = false := by
  obtain ⟨_, _, first, second, _, _, decoded, _⟩ := comes.around
  have inside := (decode_spec decoded).inside (offset, insn) (by simp)
  simp only at inside
  refine decide_eq_false ?_
  simp only [Label.firstFresh]
  omega

/-- Behind the frame the label of its instruction is not placed again. -/
theorem late_label (comes : code.FrameComes entries early late offset insn)
    (small : code.code.length ≤ 0xFFFF) :
    ∀ event ∈ late, event ≠ .finish ∧ ∀ nodes blocks, event.Writes nodes blocks →
      ∀ node ∈ nodes, node ≠ .label ⟨offset⟩ := by
  obtain ⟨lines, frames, first, second, _, rest, decoded, _, _, rfl, silent⟩ := comes.around
  have rising := decode_spec decoded
  have inside := rising.inside (offset, insn) (by simp)
  have marked {nodes : List Node} (markers : MethodRewrite.Markers nodes) :
      ∀ node ∈ nodes, node ≠ .label ⟨offset⟩ := by
    rintro node among rfl
    obtain ⟨label, fresh, same⟩ := markers _ among
    cases same
    rw [comes.isFresh_eq_false small] at fresh
    cases fresh
  have own (insn : Instruction) : MethodEvent.insn insn ≠ .finish ∧ ∀ nodes blocks,
      (MethodEvent.insn insn).Writes nodes blocks → ∀ node ∈ nodes, node ≠ .label ⟨offset⟩ := by
    refine ⟨by simp, ?_⟩
    rintro nodes blocks ⟨⟨marker, markers, rfl⟩, _⟩ node among
    rcases List.mem_append.1 among with label | last
    · exact marked markers node label
    · rw [List.mem_singleton.1 last]
      simp
  have placed {other : Nat} (apart : other ≠ offset) : MethodEvent.label ⟨other⟩ ≠ .finish ∧
      ∀ nodes blocks, (MethodEvent.label ⟨other⟩).Writes nodes blocks →
        ∀ node ∈ nodes, node ≠ .label ⟨offset⟩ := by
    refine ⟨by simp, ?_⟩
    rintro nodes blocks ⟨rfl, _⟩ node among
    rw [List.mem_singleton.1 among]
    simpa using apart
  intro event among
  simp only [List.mem_cons, List.mem_append] at among
  -- Labels of later instructions have greater offsets; all others made meanwhile are fresh.
  rcases among with rfl | item | rfl | last
  · exact own insn.normal
  · obtain ⟨⟨other, next⟩, known, rfl | aside | rfl⟩ := event_of_mem_tellItems item
    · have ordered := (List.pairwise_append.1 rising.rising).2.1
      have later := (List.pairwise_cons.1 ordered).1 (other, next) known
      exact placed (Nat.ne_of_gt later)
    · refine ⟨aside.writes_between.1, fun nodes blocks writes => ?_⟩
      cases event with
      | line number begin =>
        intro node among
        rw [writes.1] at among
        rw [List.mem_singleton.1 among]
        simp
      | frame => exact marked writes.1
      | _ => exact aside.elim
    · exact own next.normal
  · exact placed (Nat.ne_of_gt inside)
  · refine ⟨(silent event last).writes_nothing.1, fun nodes blocks writes node among => ?_⟩
    rintro rfl
    have fresh := ((silent event last).writes_nothing.2 nodes blocks writes _ among).1
    cases fresh

end FrameComes

end CodeAttribute

namespace Layer

section Pinning

variable {code : CodeAttribute} {entries : Entries} {early late : List MethodEvent} {offset : Nat}
  {insn : Instruction} {layers : List Layer} {locals stack : List FrameType}

/-- A frame that comes where it is not passed over is recorded for its instruction, and so it
stays. -/
theorem runAll_frame {top : MethodRewrite} (fine : ∀ layer ∈ layers, layer.probe.Obeys tame)
    (taken : top.ledger.phase = .open) (aware : top.Aware)
    (comes : code.FrameComes entries early late offset insn) (small : code.code.length ≤ 0xFFFF)
    (stands : top.StandsAt ⟨offset⟩) (free : top.frameRequestedHere = false) :
    (runAll layers (.frame locals stack :: late) top).2.Pins offset
      (PinnedFrame.Agrees top.originalMaxLocals.toNat locals stack) := by
  have idle : (MethodEvent.frame locals stack).Idle := trivial
  have step := stepAll_idle idle layers top
  let layers' := (stepAll layers (.frame locals stack) top).1
  let met := top.originalFrame locals stack
  have run : runAll layers (.frame locals stack :: late) top = runAll layers' late met := by
    rw [← show (stepAll layers (.frame locals stack) top).2 = met from step]
    rfl
  obtain ⟨current, reachable, frame, label, records, outline⟩ := stands.records free locals stack
  have body : met.body = (top.withFrame frame).body :=
    show met.outline.body = _ by rw [outline]; rfl
  have taken' : met.ledger.phase = .open := by
    have ledger : met.ledger = top.ledger := show met.outline.ledger = _ by rw [outline]; rfl
    rw [ledger, taken]
  have nothing : ∀ label ∈ (MethodEvent.frame locals stack).ahead, label.id < Label.firstFresh :=
    List.forall_mem_nil _
  have aware' : met.Aware := aware.step nothing
  have fine' : ∀ layer ∈ layers', layer.probe.Obeys tame :=
    forall_stepAll _ _ fine
  obtain ⟨_, after⟩ := runAll_weaves permits_tame late layers' met fine'
  have apart := comes.late_label small
  -- What is recorded behind the instruction is pinned behind it.
  have moved : MethodRewrite.Moved met (runAll layers' late met).2 := by
    obtain ⟨_, _, _, _, _, _, _, _, _, rfl, _⟩ := comes.around
    exact after.moved (fun event among => (apart event (List.mem_cons_of_mem _ among)).1) aware'
      reachable taken'
  obtain ⟨ahead, next, behind, first, rest, code_, frames, all, pinned, _⟩ := moved.split
  -- The label of the instruction is not placed again.
  have once : .label ⟨offset⟩ ∉ ahead ++ .insn next :: behind := by
    have injected : ∀ item : Mark × Node, Injected item → item.2 ≠ .label ⟨offset⟩ := by
      intro item fresh same
      have wrong := fresh.2 _ same
      rw [comes.isFresh_eq_false small] at wrong
      cases wrong
    obtain ⟨marked, _, strand, others⟩ :=
      after.harmless_of_tame.strand injected (fun event among => apart event among) taken'
    have tail := strand.gains.code.symm.trans code_
    intro among
    rw [← List.append_cancel_left tail] at among
    obtain ⟨item, known, same⟩ := List.mem_map.1 among
    exact others item known same
  obtain ⟨nodes, numbers, written⟩ := stands.code
  have agrees {other : PinnedFrame} (same : met.Records other) :
      other.Agrees top.originalMaxLocals.toNat locals stack := same.agrees current
  rw [run]
  refine ⟨nodes, numbers.map (Node.line · ⟨offset⟩) ++ ahead, behind, next, top.body.frames.toList,
    first, rest, frame, ?_, ?_, ?_, label, agrees records, fun other among => agrees (all other among),
    pinned⟩
  · rw [code_, body]
    show top.body.code ++ _ = _
    rw [written]
    simp
  · rw [List.append_assoc, List.mem_append]
    rintro (line | later)
    · simp at line
    · exact once later
  · rw [frames, body]
    show (top.body.frames.push frame).toList ++ _ = _
    rw [Array.toList_push, List.append_assoc]
    rfl

/-- **A frame of a method that is not passed over is recorded for its instruction.** -/
theorem runAll_pins {start : MethodRewrite} (fine : ∀ layer ∈ layers, layer.probe.Obeys tame)
    (taken : start.ledger.phase = .open) (aware : start.Aware)
    (comes : code.FrameComes entries early late offset insn) (small : code.code.length ≤ 0xFFFF)
    (free : (runAll layers early start).2.frameRequestedHere = false) :
    (runAll layers (early ++ .frame locals stack :: late) start).2.Pins offset
      (PinnedFrame.Agrees code.maxLocals.toNat locals stack) := by
  obtain ⟨more, sizes, others, goesOn⟩ := comes.early_sizes
  obtain ⟨_, before⟩ := runAll_weaves permits_tame early layers start fine
  have known : (runAll layers early start).2.originalMaxLocals = code.maxLocals := by
    rw [sizes] at before ⊢
    exact before.known_sizes others
  have taken' : (runAll layers early start).2.ledger.phase = .open := by
    obtain ⟨_, _, strand, _⟩ := before.harmless_of_tame.strand (fun _ _ => trivial)
      (fun event among => ⟨goesOn event among, fun _ _ _ _ _ => trivial⟩) taken
    exact strand.phase.trans taken
  have stands : (runAll layers early start).2.StandsAt ⟨offset⟩ := by
    obtain ⟨lines, frames, first, _, blocks, _, _, _, rfl, _⟩ := comes.around
    rw [← List.cons_append, runAll_append]
    exact MethodRewrite.standsAt_opening lines offset _ _
  rw [runAll_append, ← known]
  exact runAll_frame (forall_runAll early start fine) taken'
    (before.aware (comes.early_ahead small) aware) comes small stands free

end Pinning

end Layer

/-! ## Frames read back from the new stack map -/

@[simp] theorem FrameType.isWide_relabel (rename : Label → Label) (type : FrameType) :
    (type.relabel rename).isWide = type.isWide := by
  cases type <;> rfl

theorem FrameType.Alike.relabel {one other : FrameType} (alike : one.Alike other)
    (rename : Label → Label) : (one.relabel rename).Alike other := by
  rcases alike with rfl | ⟨_, _, rfl, rfl⟩
  · cases one with
    | uninitialized => exact .inr ⟨_, _, rfl, rfl⟩
    | _ => exact .inl rfl
  · exact .inr ⟨_, _, rfl, rfl⟩

theorem expandLocals_relabel (rename : Label → Label) (locals : List FrameType) :
    expandLocals (locals.map (FrameType.relabel rename)) =
      (expandLocals locals).map (FrameType.relabel rename) := by
  induction locals with
  | nil => rfl
  | cons type rest ih =>
    rw [List.map_cons, expandLocals_cons, expandLocals_cons, ih, List.map_append,
      FrameType.isWide_relabel]
    cases type.isWide <;> rfl

/-- What is read from the stack map agrees with what was written into it. -/
theorem PinnedFrame.Agrees.told {known : Nat} {locals stack : List FrameType} {frame : PinnedFrame}
    (agrees : frame.Agrees known locals stack) (assembled : AssembledCode) (place : Nat) :
    (StackMap.told assembled (place, frame)).Agrees known locals stack := by
  let rename := AssembledCode.landing assembled.labels
  refine ⟨fun i within => ?_, ?_⟩
  · have slot : slotAt (expandLocals (frame.locals.map (FrameType.relabel rename))) i =
        (slotAt (expandLocals frame.locals) i).relabel rename := by
      rw [expandLocals_relabel, slotAt, slotAt, List.getElem?_map]
      cases (expandLocals frame.locals)[i]? <;> rfl
    have own := (agrees.locals i within).relabel rename
    rw [← slot] at own
    exact own
  · refine List.forall₂_map_left_iff.2 ?_
    exact agrees.stack.imp fun _ _ alike => alike.relabel rename

/-- The frame of a method at `offset` in the stack map of the new payload, by the last constants of
the class.  It stands where the label of its instruction is now, and it is read back as it was as
long as every frame of the stack map has no more locals and values than can be counted. -/
structure MethodRewrite.FrameKept (rewrite : MethodRewrite) (pool after : ConstantPool)
    (final : Entries) (payload : Bytes) (known : Nat) (offset : Nat)
    (locals stack : List FrameType) where
  written : rewrite.Serialized pool after payload
  place : Nat
  frame : PinnedFrame
  rows : List (Nat × PinnedFrame)
  name : UInt16
  table : Bytes
  others : List (UInt16 × Bytes)
  lands : written.assembled.offsetOf ⟨offset⟩ = .ok place
  tables : written.tables = (name, table) :: others
  named : final.utf8? name = some Attribute.stackMapTable
  stackMap : StackMap.Written written.assembled final rows table
  among : (place, frame) ∈ rows
  agrees : frame.Agrees known locals stack
  read : (∀ row ∈ rows, row.2.locals.length < 0x10000 ∧ row.2.stack.length < 0x10000) →
    ∀ initial, ∃ entries frames, StackMapEntry.readTable.run table = .ok entries ∧
      StackMapEntry.expand final initial entries = .ok frames ∧
      ∃ found ∈ frames, found.label = ⟨place⟩ ∧ found.Agrees known locals stack

theorem MethodRewrite.Pins.written {rewrite : MethodRewrite} {offset known : Nat}
    {locals stack : List FrameType} (pins : rewrite.Pins offset (PinnedFrame.Agrees known locals stack))
    (emits : rewrite.target.options.emitsFrames rewrite.target.major = true)
    {pool after : ConstantPool} {payload : Bytes} (sound : pool.Sound)
    (done : rewrite.serialize pool = (.ok payload, after)) {final : Entries}
    (later : after.entries.Extends final) :
    Nonempty (rewrite.FrameKept pool after final payload known offset locals stack) := by
  obtain ⟨written⟩ := rewrite.serialized sound done
  obtain ⟨layout, _, assembles⟩ := assemble_eq_ok sound written.assembles
  obtain ⟨rows, chosen, stored⟩ := written.frames emits
  obtain ⟨place, frame, lands, among, agrees⟩ := pins.kept assembles chosen
  obtain ⟨name, table, others, tables, named, stackMap⟩ := stored (List.ne_nil_of_mem among)
  obtain ⟨rising, inside⟩ := StackMap.kept_rising chosen
  have small : written.assembled.code.length ≤ 0xFFFF := assembles.size ▸ assembles.small
  have kept := stackMap.extends_ later
  refine ⟨⟨written, place, frame, rows, name, table, others, lands, tables, later.utf8? named, kept,
    among, agrees, fun countable initial => ?_⟩⟩
  obtain ⟨entries, read, expanded⟩ := kept.read rising
    (fun row known => Nat.lt_of_lt_of_le (inside row known) small) countable initial
  exact ⟨entries, _, read, expanded, _, List.mem_map_of_mem among, rfl, agrees.told _ place⟩

/-! ## All methods of a class -/

theorem MethodRewrite.aware_start (target : RewriteTarget) (method : MethodContext) :
    (MethodRewrite.start target method).Aware := by
  rintro label (saved | handler)
  · cases saved
  · cases handler

/-- A method of the class with its new payload.  Every frame that it has at one of its instructions
is in the new stack map, unless it was passed over when it came. -/
def ClassFile.KeepsFrames (file : ClassFile) (probes : List Probe) (className : String)
    (final : Entries) (index : Nat) (payload : Bytes) : Prop :=
  ∃ member method before after code told, (member, index) ∈ file.methods.zipIdx ∧
    file.entries.utf8 member.name = .ok method.name ∧
    file.entries.utf8 member.descriptor = .ok method.descriptor ∧
    member.code? file.entries = .ok (some code) ∧
    (member.tell file.entries className method.name method.descriptor).Told (told ++ [.finish]) ∧
    (code.code.length ≤ 0xFFFF → ∀ early late locals stack,
      told = early ++ .frame locals stack :: late →
      let layers := (probes.filter fun probe =>
        probe.appliesTo method.name method.descriptor).map fun probe => Layer.start probe method
      let start := MethodRewrite.start before method
      ∃ offset insn frames, code.FrameComes file.entries early late offset insn ∧
        code.frames file.entries className method.name method.descriptor
          (AccessFlag.static.isIn member.access) = .ok frames ∧
        ⟨⟨offset⟩, locals, stack⟩ ∈ frames ∧
        ((Layer.runAll layers early start).2.frameRequestedHere = false →
          Nonempty ((Layer.runAll layers told start).2.FrameKept before.pool after final payload
            code.maxLocals.toNat offset locals stack)))

/-- **Frames of a method stay in its stack map**, whatever snippets the probes inject into a class
that is rewritten with frames. -/
theorem weaveMethods_keeps_frames {probes : List Probe} {className : String} {file : ClassFile}
    (snippets : ∀ probe ∈ probes, ∃ code, probe.code = Snippet.probeCode code)
    {options : Options} (emits : options.emitsFrames file.major = true) {hierarchy : Hierarchy}
    {target : RewriteTarget} {fault : Option ReadError}
    (woven : weaveMethods probes file.entries className options file.methods.zipIdx
      (RewriteTarget.start className file.major (ConstantPool.ofEntries file.entries) hierarchy
        options) = (target, fault))
    {index : Nat} {payload : Bytes} (rewritten : (index, payload) ∈ target.rewritten) :
    file.KeepsFrames probes className target.pool.entries index payload := by
  have harmless := Snippet.probes_harmless snippets
  obtain ⟨before, after, member, name, descriptor, own⟩ :=
    weaveMethods_rewrites harmless woven rewritten
  obtain ⟨code, told, known, whole, done⟩ := own.rewrites
  let method : MethodContext := ⟨index, member.access, name, descriptor⟩
  refine ⟨member, method, before, after, code, told, own.among, own.named, own.described, known,
    Member.tell_of_code known whole, fun small early late locals stack same => ?_⟩
  subst same
  obtain ⟨offset, insn, frames, comes, expanded, among⟩ := CodeAttribute.frame_comes whole
  refine ⟨offset, insn, frames, comes, expanded, among, fun free => ?_⟩
  have fine : ∀ layer ∈ (probes.filter fun probe => probe.appliesTo name descriptor).map
      fun probe => Layer.start probe method, layer.probe.Obeys tame := by
    intro layer chosen
    obtain ⟨snippet, same⟩ := snippets layer.probe (Layer.probe_mem_of_start chosen)
    exact Snippet.probeCode_obeys same
  have pins : (Layer.runAll _ (early ++ .frame locals stack :: late)
      (MethodRewrite.start before method)).2.Pins offset
      (PinnedFrame.Agrees code.maxLocals.toNat locals stack) :=
    Layer.runAll_pins fine rfl (MethodRewrite.aware_start before method) comes small free
  obtain ⟨_, run⟩ := Layer.runAll_weaves permits_tame (early ++ .frame locals stack :: late) _
    (MethodRewrite.start before method) fine
  refine pins.written ?_ (own.grown.sound (ConstantPool.ofEntries_sound _)) done own.later.extends_
  rw [run.follows.options, run.follows.major]
  show before.options.emitsFrames before.major = true
  rw [own.options, own.major]
  exact emits

/-- `class A { static void m(int i) { ... } }` with the given payload for the code. -/
def Sample.loopClass (payload : Bytes) : Bytes :=
  [0xCA, 0xFE, 0xBA, 0xBE, 0, 0, 0, 52,
    0, 9, 1, 0, 1, 65, 7, 0, 1, 1, 0, 1, 109, 1, 0, 4, 40, 73, 41, 86, 1, 0, 4, 67, 111, 100, 101,
    1, 0, 13, 83, 116, 97, 99, 107, 77, 97, 112, 84, 97, 98, 108, 101,
    1, 0, 16, 106, 97, 118, 97, 47, 108, 97, 110, 103, 47, 79, 98, 106, 101, 99, 116, 7, 0, 7,
    0, 33, 0, 2, 0, 8, 0, 0, 0, 0, 0, 1, 0, 9, 0, 3, 0, 4, 0, 1, 0, 5]
    ++ Bytes.u4 (UInt32.ofNat payload.length) ++ payload ++ [0, 0]

/-- A float is stored over the argument, and again, without end.  So on the way to the start of the
code there may be an integer in the slot or a float, and the frame there says that it is empty. -/
def Sample.looping : Bytes :=
  Sample.loopClass [0, 1, 0, 1, 0, 0, 0, 5, 0x0B, 0x43, 0xA7, 0xFF, 0xFE, 0, 0, 0, 1,
    0, 6, 0, 0, 0, 5, 0, 1, 250, 0, 0]

/-- The code of `Sample.looping` behind a `nop`. -/
def Sample.loopingOn : Bytes :=
  [0, 1, 0, 1, 0, 0, 0, 6, 0, 0x0B, 0x43, 0xA7, 0xFF, 0xFE, 0, 0, 0, 1,
    0, 6, 0, 0, 0, 9, 0, 1, 255, 0, 1, 0, 0, 0, 0]

theorem weaveMethods_keeps_frames_looping : ∃ file target, ClassFile.read Sample.looping = .ok file ∧
    (∀ probe ∈ Sample.nopAtEntry.probes, ∃ code, probe.code = Snippet.probeCode code) ∧
    Options.standard.emitsFrames file.major = true ∧
    (weaveMethods Sample.nopAtEntry.probes file.entries "A" Options.standard file.methods.zipIdx
      (RewriteTarget.start "A" file.major (ConstantPool.ofEntries file.entries) Hierarchy.flat
        Options.standard)).1 = target ∧
    (0, Sample.loopingOn) ∈ target.rewritten ∧
    file.KeepsFrames Sample.nopAtEntry.probes "A" target.pool.entries 0 Sample.loopingOn := by
  have runs : ((ClassFile.read Sample.looping).toOption.any fun file =>
      Options.standard.emitsFrames file.major && decide ((0, Sample.loopingOn) ∈
        (weaveMethods Sample.nopAtEntry.probes file.entries "A" Options.standard
          file.methods.zipIdx (RewriteTarget.start "A" file.major
            (ConstantPool.ofEntries file.entries) Hierarchy.flat
            Options.standard)).1.rewritten)) = true := by decide +kernel
  have snippets : ∀ probe ∈ Sample.nopAtEntry.probes, ∃ code, probe.code = Snippet.probeCode code := by
    intro probe among
    obtain rfl := List.mem_singleton.1 among
    exact ⟨_, rfl⟩
  obtain ⟨file, read, both⟩ := Outcome.exists_of_any runs
  obtain ⟨emits, written⟩ := Bool.and_eq_true_iff.1 both
  have rewritten := of_decide_eq_true written
  exact ⟨file, _, read, snippets, emits, rfl, rewritten,
    weaveMethods_keeps_frames snippets emits rfl rewritten⟩

/-! ## Frames that are passed over -/

/-- A jump at the entry of every method of class `A`, to the end of the injected code. -/
def Sample.jumpAtEntry : Transformer :=
  ⟨[⟨"A", "", none, ⟨"", "", "", "", 0, .entry, .before⟩,
    Snippet.probeCode [.insn (.simple Opcode.iconst0), .insn (.jump Opcode.ifeq ⟨900⟩),
      .label ⟨900⟩]⟩], Options.standard⟩

/-- The class of `Sample.looping` with the jump. -/
def Sample.jumping : Bytes :=
  Sample.loopClass [0, 1, 0, 1, 0, 0, 0, 9, 3, 153, 0, 3, 0x0B, 0x43, 0xA7, 0xFF, 0xFE, 0, 0, 0, 1,
    0, 6, 0, 0, 0, 10, 0, 1, 255, 0, 4, 0, 1, 1, 0, 0]

/-- The frames in the stack maps of the methods of a class. -/
def ClassFile.stackMaps (bytes : Bytes) : Except ReadError (List (List PinnedFrame)) := do
  let file ← read bytes
  let className ← file.name
  file.methods.mapM fun member => do
    let name ← file.entries.utf8 member.name
    let descriptor ← file.entries.utf8 member.descriptor
    match ← member.code? file.entries with
    | none => return []
    | some code =>
      code.frames file.entries className name descriptor (AccessFlag.static.isIn member.access)

/-- The only frame of the method said that the slot is empty at the start of the code.  The start of
the code is at offset 4 now, where the backward jump leads with a float in the slot, and the only
frame that was written says that there is an integer. -/
theorem jumpAtEntry_claims_integer :
    (Sample.jumpAtEntry.transform? ⟨none, []⟩ Sample.looping ClassCache.empty).1 =
      .ok (some Sample.jumping) ∧
    ClassFile.stackMaps Sample.looping = .ok [[⟨⟨0⟩, [], []⟩]] ∧
    ClassFile.stackMaps Sample.jumping = .ok [[⟨⟨4⟩, [.int], []⟩]] ∧
    decode #[] [3, 153, 0, 3, 0x0B, 0x43, 0xA7, 0xFF, 0xFE] = .ok [(0, .simple Opcode.iconst0),
      (1, .jump Opcode.ifeq ⟨4⟩), (4, .simple Opcode.fconst0), (5, .simple Opcode.fstore0),
      (6, .jump Opcode.goto ⟨4⟩)] ∧
    ¬ (⟨⟨4⟩, [.int], []⟩ : PinnedFrame).Agrees 1 [] [] := by
  refine ⟨by decide +kernel, by decide +kernel, by decide +kernel, by decide +kernel, ?_⟩
  intro agrees
  rcases agrees.locals 0 (by decide) with same | ⟨_, _, same, _⟩
  · cases same
  · cases same

end ClassWeave
