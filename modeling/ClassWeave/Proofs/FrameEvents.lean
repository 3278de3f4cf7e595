/-
# ClassWeave.Proofs.FrameEvents -- the moment at which a frame of a method comes

A frame is told behind the label of its instruction and the lines there, and right before
the instruction (`CodeAttribute.frame_comes`).  No layer does anything about labels,
lines and frames, so when the frame comes the rewrite stands at the label
(`MethodRewrite.StandsAt`).  The frame is recorded then (`StandsAt.records`), unless
injected code has asked for one at the place, in which case it is passed over.
-/
import ClassWeave.Proofs.FrameForms
import ClassWeave.Proofs.FrameKeeping
import ClassWeave.Proofs.MethodPayloads

set_option autoImplicit false

namespace ClassWeave

/-! ## Frames among the events -/

namespace CodeAttribute

theorem mem_framesByOffset {frames : List PinnedFrame} {offset : Nat} {frame : PinnedFrame}
    (found : (framesByOffset frames)[offset]? = some frame) :
    frame ∈ frames ∧ frame.label = ⟨offset⟩ := by
  rw [getElem?_framesByOffset] at found
  obtain ⟨among, at_⟩ := List.mem_filter.1 (List.mem_of_getLast? found)
  exact ⟨among, congrArg Label.mk (beq_iff_eq.1 at_)⟩

/-- What is not among the first elements is among the later ones. -/
theorem split_behind {α : Type} {early late before after : List α} {item : α}
    (same : early ++ late = before ++ item :: after) (apart : item ∉ early) :
    ∃ more, before = early ++ more ∧ late = more ++ item :: after := by
  rcases List.append_eq_append_iff.1 same with ⟨more, rfl, rest⟩ | ⟨more, rfl, rest⟩
  · exact ⟨more, rfl, rest⟩
  · cases more with
    | nil => exact ⟨[], by simp, rest.symm⟩
    | cons first more =>
      cases rest
      exact absurd (List.mem_append_right _ List.mem_cons_self) apart

section Told

variable (lines : Std.TreeMap Nat (List UInt16)) (frames : Std.TreeMap Nat PinnedFrame)

/-- The events of instructions in their order. -/
def tellItems (items : List (Nat × Instruction)) : List MethodEvent :=
  items.flatMap fun (offset, insn) => tellInstruction lines frames offset insn

/-- The label of an instruction, and its lines. -/
def opening (offset : Nat) : List MethodEvent :=
  .label ⟨offset⟩ :: ((lines[offset]?).getD []).map (MethodEvent.line · ⟨offset⟩)

/-- The frame is that of the instruction at `offset`.  It comes behind the label and the lines of the
instruction and right before it. -/
structure Replays (items : List (Nat × Instruction)) (locals stack : List FrameType)
    (before after : List MethodEvent) (offset : Nat) (insn : Instruction) : Prop where
  own : ∃ frame, frames[offset]? = some frame ∧ frame.locals = locals ∧ frame.stack = stack
  around : ∃ first second, items = first ++ (offset, insn) :: second ∧
    before = tellItems lines frames first ++ opening lines offset ∧
    after = .insn insn.normal :: tellItems lines frames second

variable {lines frames} {items : List (Nat × Instruction)} {locals stack : List FrameType}
  {before after : List MethodEvent} {offset : Nat} {insn : Instruction}

theorem Replays.later (replays : Replays lines frames items locals stack before after offset insn)
    (item : Nat × Instruction) : Replays lines frames (item :: items) locals stack
      (tellInstruction lines frames item.1 item.2 ++ before) after offset insn := by
  obtain ⟨first, second, rfl, rfl, rfl⟩ := replays.around
  refine ⟨replays.own, item :: first, second, rfl, ?_, rfl⟩
  rw [tellItems, tellItems, List.flatMap_cons, List.append_assoc]

theorem tellInstruction_of_none (bare : frames[offset]? = none) :
    tellInstruction lines frames offset insn = opening lines offset ++ [.insn insn.normal] := by
  simp [tellInstruction_eq, asides, opening, bare]

theorem tellInstruction_of_some {frame : PinnedFrame} (found : frames[offset]? = some frame) :
    tellInstruction lines frames offset insn =
      opening lines offset ++ [.frame frame.locals frame.stack, .insn insn.normal] := by
  simp [tellInstruction_eq, asides, opening, found]

/-- Every frame among the events of instructions is that of an instruction. -/
theorem replays_of_mem : ∀ {items : List (Nat × Instruction)} {before after : List MethodEvent},
    tellItems lines frames items = before ++ .frame locals stack :: after →
    ∃ offset insn, Replays lines frames items locals stack before after offset insn
  | [], before, after, same => by
    have length := congrArg List.length same
    simp [tellItems] at length
  | (offset, insn) :: items, before, after, same => by
    have apart : .frame locals stack ∉ opening lines offset := by simp [opening]
    have whole : tellItems lines frames ((offset, insn) :: items) =
        tellInstruction lines frames offset insn ++ tellItems lines frames items := rfl
    -- A frame behind the instruction is one of the others.
    have onwards {more : List MethodEvent} (rest : .insn insn.normal :: tellItems lines frames items =
        more ++ .frame locals stack :: after) (front : List MethodEvent)
        (all : tellInstruction lines frames offset insn = front ++ [.insn insn.normal])
        (begins : before = front ++ more) :
        ∃ offset' insn', Replays lines frames ((offset, insn) :: items) locals stack before after
          offset' insn' := by
      have rest' : [MethodEvent.insn insn.normal] ++ tellItems lines frames items =
          more ++ .frame locals stack :: after := rest
      obtain ⟨behind, rfl, others⟩ := split_behind rest' (by simp)
      obtain ⟨place, other, replays⟩ := replays_of_mem others
      refine ⟨place, other, ?_⟩
      have joined := replays.later (offset, insn)
      rw [all] at joined
      rw [begins, ← List.append_assoc]
      exact joined
    rw [whole] at same
    cases found : frames[offset]? with
    | none =>
      have told : tellInstruction lines frames offset insn = _ := tellInstruction_of_none found
      rw [told, List.append_assoc] at same
      obtain ⟨more, begins, rest⟩ := split_behind same apart
      exact onwards rest _ told begins
    | some frame =>
      have told : tellInstruction lines frames offset insn = _ := tellInstruction_of_some found
      rw [told, List.append_assoc] at same
      obtain ⟨more, begins, rest⟩ := split_behind same apart
      cases more with
      | nil =>
        cases rest
        exact ⟨offset, insn, ⟨frame, found, rfl, rfl⟩, [], items, rfl,
          begins.trans (by simp [tellItems]), rfl⟩
      | cons first more =>
        obtain ⟨rfl, others⟩ := List.cons.inj rest
        refine onwards others (opening lines offset ++ [.frame frame.locals frame.stack])
          (told.trans (List.append_cons _ _ _)) ?_
        rw [begins, List.append_assoc]
        rfl

end Told

end CodeAttribute

/-! ## Standing at the label of an instruction -/

namespace MethodRewrite

/-- The last label that was placed is `place`, and only lines have been written behind it. -/
structure StandsAt (rewrite : MethodRewrite) (place : Label) : Prop where
  group : ∃ others, rewrite.group = place :: others
  code : ∃ (nodes : List Node) (numbers : List UInt16),
    rewrite.body.code = nodes ++ .label place :: numbers.map (Node.line · place)

variable {rewrite : MethodRewrite} {place : Label}

theorem standsAt_placeLabel (rewrite : MethodRewrite) (place : Label) :
    (rewrite.placeLabel place).StandsAt place := by
  have outline := rewrite.outline_placeLabel place
  have group : (rewrite.placeLabel place).outline.group = place :: rewrite.group := by rw [outline]
  have code : (rewrite.placeLabel place).outline.body = rewrite.body.placeLabel place := by
    rw [outline]
  refine ⟨⟨rewrite.group, group⟩, rewrite.body.code, [], ?_⟩
  show (rewrite.placeLabel place).outline.body.code = _
  rw [code]
  simp [MethodBody.placeLabel, MethodBody.code]

theorem StandsAt.line (stands : rewrite.StandsAt place) (number : UInt16) :
    (rewrite.step (.line number place)).StandsAt place := by
  obtain ⟨nodes, numbers, code⟩ := stands.code
  refine ⟨stands.group, nodes, numbers ++ [number], ?_⟩
  have written : (rewrite.step (.line number place)).body.code =
      rewrite.body.code ++ [.line number place] := by
    simp [step, MethodBody.add, MethodBody.code]
  rw [written, code]
  simp

/-- A frame of the method that is not passed over is merged, and recorded at the label. -/
theorem StandsAt.records (stands : rewrite.StandsAt place)
    (free : rewrite.frameRequestedHere = false) (locals stack : List FrameType) :
    (rewrite.originalFrame locals stack).current =
        ⟨mergedLocals rewrite.originalMaxLocals.toNat (expandLocals locals) rewrite.current.locals,
          mergedStack stack.reverse rewrite.current.stack⟩ ∧
      (rewrite.originalFrame locals stack).reachable = true ∧
      ∃ frame, frame.label = place ∧ (rewrite.originalFrame locals stack).Records frame ∧
        (rewrite.originalFrame locals stack).outline = rewrite.outline.withFrame frame := by
  obtain ⟨others, group⟩ := stands.group
  have ended : rewrite.endPrefix.current = rewrite.current ∧
      rewrite.endPrefix.originalMaxLocals = rewrite.originalMaxLocals := by
    unfold endPrefix
    split <;> exact ⟨rfl, rfl⟩
  let merged : Frame :=
    ⟨mergedLocals rewrite.originalMaxLocals.toNat (expandLocals locals) rewrite.current.locals,
      mergedStack stack.reverse rewrite.current.stack⟩
  have made : rewrite.originalFrame locals stack =
      ({ rewrite.endPrefix.moveTo merged with reachable := true }.noteDepth.recordFrame place) := by
    unfold originalFrame
    rw [if_neg (by rw [free]; exact Bool.false_ne_true), labelHere_of_group rewrite group]
    simp only
    rw [ended.1, ended.2]
  rw [made]
  refine ⟨rfl, rfl, ⟨place, compactLocals merged.locals, merged.stack.reverse⟩, rfl, ⟨rfl, rfl⟩, ?_⟩
  exact (outline_recordFrame _ _).trans (congrArg (withFrame · _) (outline_endPrefix rewrite))

/-- What is recorded then says what the frame of the method says. -/
theorem Records.agrees {known : Nat} {locals stack : List FrameType} {current : Frame}
    (merged : rewrite.current = ⟨mergedLocals known (expandLocals locals) current.locals,
      mergedStack stack.reverse current.stack⟩) {frame : PinnedFrame}
    (records : rewrite.Records frame) : frame.Agrees known locals stack := by
  obtain ⟨sameLocals, sameStack⟩ := records
  rw [merged] at sameLocals sameStack
  refine ⟨fun i within => ?_, ?_⟩
  · rw [sameLocals]
    exact mergedLocals_alike known locals current.locals within
  · have alike := List.rel_reverse (mergedStack_alike stack.reverse current.stack)
    rw [List.reverse_reverse] at alike
    rw [sameStack]
    exact alike

end MethodRewrite

/-! ## The slots that a method knows -/

def MethodEvent.TellsSizes : MethodEvent → Prop
  | .sizes _ _ | .maxs _ _ => True
  | _ => False

namespace MethodRewrite

variable (rewrite : MethodRewrite)

theorem known_of_outline {before after outline : MethodRewrite} (same : after.outline = outline)
    (kept : outline.originalMaxLocals = before.originalMaxLocals) :
    after.originalMaxLocals = before.originalMaxLocals := by
  rw [← kept, ← same]
  rfl

theorem known_labelHere : rewrite.labelHere.2.originalMaxLocals = rewrite.originalMaxLocals := by
  cases group : rewrite.group with
  | cons label others => rw [labelHere_of_group rewrite group]
  | nil =>
    rw [labelHere_of_empty rewrite group]
    show (rewrite.freshLabel.2.placeLabel rewrite.freshLabel.1).outline.originalMaxLocals = _
    rw [outline_placeLabel]
    rfl

theorem known_instruction (insn : Instruction) :
    (rewrite.instruction insn).originalMaxLocals = rewrite.originalMaxLocals := by
  have positioned : (rewrite.position insn).2.originalMaxLocals = rewrite.originalMaxLocals := by
    unfold position
    split
    · rfl
    · split
      · exact rewrite.known_labelHere
      · rfl
  by_cases taken : rewrite.ledger.phase = .open
  · exact known_of_outline (rewrite.outline_instruction insn taken) positioned
  · unfold instruction
    rw [if_pos taken]
    rfl

theorem known_step {event : MethodEvent} (other : ¬ event.TellsSizes) :
    (rewrite.step event).originalMaxLocals = rewrite.originalMaxLocals := by
  cases event with
  | sizes | maxs => exact absurd trivial other
  | line | tryBlock | «variable» => rfl
  | insn insn => exact rewrite.known_instruction insn
  | label place => exact known_of_outline (rewrite.outline_placeLabel place) rfl
  | frame locals stack =>
    rcases rewrite.outline_originalFrame locals stack with ⟨_, same⟩ | ⟨_, frame, _, same⟩
    · exact congrArg originalMaxLocals same
    · exact known_of_outline same rewrite.known_labelHere
  | finish =>
    show rewrite.close.originalMaxLocals = _
    unfold close
    split
    · rfl
    · split
      · rfl
      · simp only
        split <;> rfl

theorem known_perform {came : MethodEvent} {start : MethodRewrite} {request : Injection.Request}
    (fine : request.Tame came start rewrite) :
    (rewrite.perform request).originalMaxLocals = rewrite.originalMaxLocals := by
  have slot (type : ValueType) :
      (rewrite.allocate type).2.originalMaxLocals = rewrite.originalMaxLocals :=
    known_of_outline (rewrite.outline_allocate type) rfl
  cases request with
  | label | fault => rfl
  | event event =>
    have other : ¬ event.TellsSizes := by
      cases event with
      | sizes | maxs => exact fine.elim
      | _ => exact id
    exact known_step { rewrite with injected := true } other
  | slot type => exact slot type
  | store type =>
    show (rewrite.storeNew type).2.originalMaxLocals = _
    rw [storeNew_eq]
    split
    · exact (known_instruction _ _).trans (slot type)
    · exact slot type
  | handler block => exact known_of_outline (rewrite.outline_addHandler block) rfl
  | frame label wanted =>
    have same := rewrite.outline_askFrame label wanted
    rcases rewrite.outline_requestFrame label wanted with kept | marked | ⟨_, _, _, _, _, granted⟩
    · exact known_of_outline (same.trans kept) rfl
    · exact known_of_outline (same.trans marked) rfl
    · exact known_of_outline (same.trans granted) rfl

end MethodRewrite

theorem Requests.known {came : MethodEvent} {start before after : MethodRewrite}
    {requests : List Injection.Request} (run : Requests (tame came start) before requests after) :
    after.originalMaxLocals = before.originalMaxLocals := by
  induction run with
  | done => rfl
  | more permitted _ ih => exact ih.trans (MethodRewrite.known_perform _ permitted)

theorem Weaves.known {events : List MethodEvent} {before after : MethodRewrite}
    {actions : List Action} (run : Weaves tame events before actions after)
    (others : ∀ event ∈ events, ¬ event.TellsSizes) :
    after.originalMaxLocals = before.originalMaxLocals := by
  induction run with
  | done => rfl
  | @event _ _ _ reached _ _ _ _ _ into out _ ih =>
    have step := reached.known_step (others _ List.mem_cons_self)
    have rest := ih fun other among => others other (List.mem_cons_of_mem _ among)
    rw [rest, out.known, step, into.known]

/-- What a method tells first is how many slots it knows. -/
theorem Weaves.known_sizes {maxStack maxLocals : UInt16} {events : List MethodEvent}
    {before after : MethodRewrite} {actions : List Action}
    (run : Weaves tame (.sizes maxStack maxLocals :: events) before actions after)
    (others : ∀ event ∈ events, ¬ event.TellsSizes) : after.originalMaxLocals = maxLocals := by
  cases run with
  | event _ out rest => exact (rest.known others).trans out.known

end ClassWeave
