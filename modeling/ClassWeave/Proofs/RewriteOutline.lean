/-
# ClassWeave.Proofs.RewriteOutline -- what a rewrite does apart from its simulation

A `MethodRewrite` runs every instruction on a frame while it collects the new body.
`MethodRewrite.outline` forgets all that belongs to this simulation: frames, depths, the
questions asked, and whether something went wrong.  What an operation does to the
outline is told by one equation each, and most operations do nothing to it.

So the body, the ledger, the labels handed out and the outcome of the class can be
followed without looking at any frame.
-/
import ClassWeave.Rewrite.Method

set_option autoImplicit false

namespace ClassWeave.MethodRewrite

/-- The rewrite as if nothing had been simulated. -/
def outline (rewrite : MethodRewrite) : MethodRewrite :=
  { rewrite with
    target := { rewrite.target with asked := [] }
    current := Frame.empty
    height := 0
    reachable := false
    saved := ∅
    positions := ∅
    snapshots := #[]
    ranges := ∅
    inPrefix := false
    prefixLocals := []
    maxStack := 0
    maxLocals := 0
    fault := none }

variable (rewrite : MethodRewrite)

@[simp] theorem outline_fail (cause : InstrumentError) :
    (rewrite.fail cause).outline = rewrite.outline := rfl

@[simp] theorem outline_ask (questions : List (String × String)) :
    (rewrite.ask questions).outline = rewrite.outline := rfl

@[simp] theorem outline_noteDepth : rewrite.noteDepth.outline = rewrite.outline := rfl

@[simp] theorem outline_moveTo (frame : Frame) :
    (rewrite.moveTo frame).outline = rewrite.outline := rfl

@[simp] theorem outline_addRange (block : TryBlock) :
    (rewrite.addRange block).outline = rewrite.outline := rfl

@[simp] theorem outline_endPrefix : rewrite.endPrefix.outline = rewrite.outline := by
  unfold endPrefix
  split <;> rfl

@[simp] theorem outline_carry (label : Label) :
    (rewrite.carry label).outline = rewrite.outline := by
  unfold carry
  split
  · rfl
  · split <;> rfl

@[simp] theorem outline_foldl_carry (labels : List Label) :
    (labels.foldl carry rewrite).outline = rewrite.outline := by
  induction labels generalizing rewrite with
  | nil => rfl
  | cons label labels ih => rw [List.foldl_cons, ih, outline_carry]

@[simp] theorem outline_simulate (insn : Instruction) (position : Label) :
    (rewrite.simulate insn position).outline = rewrite.outline := by
  unfold simulate
  split
  · split <;> rfl
  · rfl

theorem outline_freshLabel :
    rewrite.freshLabel.2.outline = { rewrite.outline with nextLabel := rewrite.nextLabel + 1 } :=
  rfl

theorem outline_placeLabel (label : Label) :
    (rewrite.placeLabel label).outline =
      { rewrite.outline with
        group := label :: rewrite.group, body := rewrite.body.placeLabel label } := by
  unfold placeLabel
  simp only
  split <;> rfl

@[simp] theorem outline_leave (insn : Instruction) :
    (rewrite.leave insn).outline = rewrite.outline := by
  have carried : (if rewrite.reachable then insn.targets.foldl carry rewrite else rewrite).outline =
      rewrite.outline := by
    split
    · exact outline_foldl_carry _ _
    · rfl
  unfold leave
  simp only
  split <;> split <;> first
    | exact carried
    | exact (outline_endPrefix _).trans carried

/-- What nothing comes to is not fallen into either. -/
theorem reachable_of_arriving {rewrite : MethodRewrite} {label : Label}
    (nothing : rewrite.arriving label = none) : rewrite.reachable = false := by
  unfold arriving at nothing
  split at nothing
  · cases nothing
  · unfold incoming at nothing
    split at nothing
    · cases nothing
    · cases nothing
    · assumption

theorem labelHere_of_group {label : Label} {others : List Label}
    (group : rewrite.group = label :: others) : rewrite.labelHere = (label, rewrite) := by
  unfold labelHere
  rw [group]

theorem labelHere_of_empty (group : rewrite.group = []) :
    rewrite.labelHere =
      (rewrite.freshLabel.1, rewrite.freshLabel.2.placeLabel rewrite.freshLabel.1) := by
  unfold labelHere
  rw [group]

@[simp] theorem outline_putInstruction (insn : Instruction) :
    (rewrite.putInstruction insn).outline = rewrite.outline.putInstruction insn := rfl

/-- An instruction that is taken is written behind the label of its place. -/
theorem outline_instruction (insn : Instruction) (taken : rewrite.ledger.phase = .open) :
    (rewrite.instruction insn).outline =
      (rewrite.position insn).2.outline.putInstruction insn := by
  unfold instruction
  rw [if_neg (not_not_intro taken)]
  simp only [outline_putInstruction, outline_leave, outline_simulate]
  rfl

/-- A frame pinned to a label, behind the others. -/
def withFrame (rewrite : MethodRewrite) (frame : PinnedFrame) : MethodRewrite :=
  { rewrite with body := { rewrite.body with frames := rewrite.body.frames.push frame } }

theorem outline_recordFrame (label : Label) :
    (rewrite.recordFrame label).outline =
      rewrite.outline.withFrame
        ⟨label, compactLocals rewrite.current.locals, rewrite.current.stack.reverse⟩ := rfl

/-- A frame of the method is recorded at its place, unless one was asked for there. -/
theorem outline_originalFrame (locals stack : List FrameType) :
    rewrite.frameRequestedHere = true ∧ rewrite.originalFrame locals stack = rewrite ∨
      rewrite.frameRequestedHere = false ∧ ∃ frame, frame.label = rewrite.labelHere.1 ∧
        (rewrite.originalFrame locals stack).outline =
          rewrite.labelHere.2.outline.withFrame frame := by
  unfold originalFrame
  cases asked : rewrite.frameRequestedHere with
  | true => exact .inl ⟨rfl, rfl⟩
  | false =>
    refine .inr ⟨rfl, ?_⟩
    obtain ⟨label, placed⟩ := rewrite.labelHere
    refine ⟨_, ?_, (outline_recordFrame _ label).trans (congrArg (withFrame · _) ?_)⟩
    · rfl
    · exact outline_endPrefix placed

theorem outline_grantFrame (label : Label) (wanted : FrameRequest) :
    ∃ frame, frame.label = label ∧ (rewrite.grantFrame label wanted).outline =
      ({ rewrite.outline with frameRequestedHere := true }).withFrame frame := by
  refine ⟨_, ?_, (outline_recordFrame _ label).trans (congrArg (withFrame · _) ?_)⟩
  · rfl
  · show { (rewrite.ask _).endPrefix.outline with frameRequestedHere := true } = _
    rw [outline_endPrefix, outline_ask]

/-- A frame is asked for in vain, or once more, or it is recorded at a label that stands here. -/
theorem outline_requestFrame (label : Label) (wanted : FrameRequest) :
    (rewrite.requestFrame label wanted).2.outline = rewrite.outline ∨
      (rewrite.requestFrame label wanted).2.outline = { rewrite.outline with injected := true } ∨
      ∃ ledger frame, rewrite.ledger.request label wanted = .ok (true, ledger) ∧
        label ∈ rewrite.group ∧ frame.label = label ∧
        (rewrite.requestFrame label wanted).2.outline =
          ({ rewrite.outline with
            injected := true, ledger := ledger, frameRequestedHere := true }).withFrame frame := by
  unfold requestFrame
  split
  · exact .inl rfl
  · simp only
    split
    · exact .inr (.inl rfl)
    · rename_i here
      have among : label ∈ rewrite.group := by simpa using here
      split
      · exact .inr (.inl rfl)
      · exact .inr (.inl rfl)
      · rename_i ledger asked
        obtain ⟨frame, pinned, granted⟩ := outline_grantFrame
          { rewrite with injected := true, ledger := ledger } label wanted
        exact .inr (.inr ⟨ledger, frame, asked, among, pinned, granted⟩)

@[simp] theorem outline_keepFault {α : Type} (answer : Except InstrumentError α × MethodRewrite) :
    (keepFault answer).2.outline = answer.2.outline := by
  obtain ⟨_ | _, rewrite⟩ := answer <;> rfl

theorem outline_allocate (type : ValueType) :
    (rewrite.allocate type).2.outline =
      { rewrite.outline with
        injected := true
        ledger :=
          match rewrite.ledger.allocate type with
          | .ok (_, ledger) => ledger
          | .error _ => rewrite.ledger } := by
  unfold allocate
  rw [outline_keepFault]
  simp only
  split <;> simp_all only <;> rfl

theorem outline_addHandler (block : TryBlock) :
    (rewrite.addHandler block).2.outline =
      { rewrite.outline with
        injected := true
        ledger :=
          match rewrite.ledger.addHandler block with
          | .ok ledger => ledger
          | .error _ => rewrite.ledger } := by
  unfold addHandler
  rw [outline_keepFault]
  simp only
  split <;> simp_all only <;> rfl

@[simp] theorem outline_askFrame (label : Label) (wanted : FrameRequest) :
    (rewrite.askFrame label wanted).2.outline = (rewrite.requestFrame label wanted).2.outline :=
  outline_keepFault _

/-- A value is stored by a slot taken and, if there is one, an instruction of injected code. -/
theorem storeNew_eq (type : ValueType) :
    (rewrite.storeNew type).2 =
      match (rewrite.allocate type).1 with
      | .ok slot => (rewrite.allocate type).2.inject (.insn (.var type.storeOpcode slot))
      | .error _ => (rewrite.allocate type).2 := by
  have marked : (rewrite.allocate type).2.injected = true :=
    congrArg MethodRewrite.injected (rewrite.outline_allocate type)
  unfold storeNew
  split
  · rename_i slot after taken
    rw [taken] at marked ⊢
    show after.instruction _ = ({ after with injected := true } : MethodRewrite).instruction _
    rw [← marked]
  · rename_i cause after refused
    rw [refused]

end ClassWeave.MethodRewrite
