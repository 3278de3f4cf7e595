/-
# ClassWeave.Proofs.SimulationSteps -- the few steps that the simulation is made of

Whatever happens to a method being rewritten, its simulation takes five kinds of steps:
a label is placed, a frame is recorded, an instruction is run, control leaves an
instruction, or nothing happens to it.  A property that each of them upholds
(`MethodRewrite.Upheld`) holds all along a run (`MethodRewrite.Upheld.run`).
-/
import ClassWeave.Proofs.RewriteTrace

set_option autoImplicit false

namespace ClassWeave.MethodRewrite

/-- What the simulation knows and takes for granted. -/
def simulation (rewrite : MethodRewrite) :=
  (rewrite.current, rewrite.height, rewrite.reachable, rewrite.saved, rewrite.inPrefix,
    rewrite.prefixLocals, rewrite.maxStack)

/-- The frame recorded at the label, control being there. -/
def recordAt (rewrite : MethodRewrite) (frame : Frame) (requested : Bool) (label : Label) :
    MethodRewrite :=
  recordFrame (noteDepth { rewrite.endPrefix.moveTo frame with
    reachable := true, frameRequestedHere := requested }) label

/-- The property outlives every step of the simulation. -/
structure Upheld (good : MethodRewrite → Prop) : Prop where
  quiet : ∀ {before after : MethodRewrite}, good before →
    after.simulation = before.simulation → good after
  placeLabel : ∀ {rewrite : MethodRewrite} (label : Label), good rewrite →
    good (rewrite.placeLabel label)
  recordAt : ∀ {rewrite : MethodRewrite} (frame : Frame) (requested : Bool) (label : Label),
    good rewrite → good (rewrite.recordAt frame requested label)
  simulate : ∀ {rewrite : MethodRewrite} (insn : Instruction) (position : Label), good rewrite →
    good (rewrite.simulate insn position)
  leave : ∀ {rewrite : MethodRewrite} (insn : Instruction), good rewrite →
    good (rewrite.leave insn)

namespace Upheld

variable {good : MethodRewrite → Prop} {rewrite : MethodRewrite}

theorem labelHere (upheld : Upheld good) (holds : good rewrite) : good rewrite.labelHere.2 := by
  cases group : rewrite.group with
  | cons label others =>
    rw [labelHere_of_group rewrite group]
    exact holds
  | nil =>
    rw [labelHere_of_empty rewrite group]
    have fresh : good rewrite.freshLabel.2 := upheld.quiet holds rfl
    exact upheld.placeLabel rewrite.freshLabel.1 fresh

theorem originalFrame (upheld : Upheld good) (holds : good rewrite)
    (locals stack : List FrameType) : good (rewrite.originalFrame locals stack) := by
  unfold MethodRewrite.originalFrame
  split
  · exact holds
  · exact upheld.recordAt _ rewrite.labelHere.2.endPrefix.frameRequestedHere _
      (upheld.labelHere holds)

theorem requestFrame (upheld : Upheld good) (holds : good rewrite) (label : Label)
    (wanted : FrameRequest) : good (rewrite.requestFrame label wanted).2 := by
  unfold MethodRewrite.requestFrame
  split
  · exact holds
  · simp only
    split
    · exact upheld.quiet holds rfl
    · split
      · exact upheld.quiet holds rfl
      · exact upheld.quiet holds rfl
      · rename_i ledger _
        let booked := { rewrite with injected := true, ledger := ledger }
        let asked := booked.ask
          (if booked.isHandler label then booked.handlerQuestions label else [])
        have quiet : good asked := upheld.quiet holds rfl
        exact upheld.recordAt _ true label quiet

theorem instruction (upheld : Upheld good) (holds : good rewrite) (insn : Instruction) :
    good (rewrite.instruction insn) := by
  unfold MethodRewrite.instruction
  split
  · exact upheld.quiet holds rfl
  · have placed : good (rewrite.position insn).2 := by
      unfold position
      split
      · exact holds
      · split
        · exact upheld.labelHere holds
        · exact holds
    rcases answer : rewrite.position insn with ⟨position, reached⟩
    rw [answer] at placed
    let noted := { reached with snapshots := reached.snapshots.push reached.current.locals }
    have seen : good noted := upheld.quiet placed rfl
    have left := upheld.leave insn (upheld.simulate insn position seen)
    exact upheld.quiet left rfl

theorem step (upheld : Upheld good) (holds : good rewrite) (event : MethodEvent) :
    good (rewrite.step event) := by
  cases event with
  | frame locals stack => exact upheld.originalFrame holds locals stack
  | label label => exact upheld.placeLabel label holds
  | insn insn => exact upheld.instruction holds insn
  | finish =>
    show good rewrite.close
    unfold close
    split
    · exact holds
    · split
      · exact upheld.quiet holds rfl
      · simp only
        split <;> exact upheld.quiet holds rfl
  | sizes | maxs | line | tryBlock | «variable» => exact upheld.quiet holds rfl

theorem perform (upheld : Upheld good) (holds : good rewrite) (request : Injection.Request) :
    good (rewrite.perform request) := by
  have allocated (value : ValueType) : good (rewrite.allocate value).2 := by
    unfold allocate
    simp only
    split <;> exact upheld.quiet holds rfl
  cases request with
  | label | fault => exact upheld.quiet holds rfl
  | event event =>
    have marked : good { rewrite with injected := true } := upheld.quiet holds rfl
    exact upheld.step marked event
  | slot value => exact allocated value
  | store value =>
    have taken := allocated value
    show good (rewrite.storeNew value).2
    unfold storeNew
    rcases answer : rewrite.allocate value with ⟨_ | own, reached⟩
    all_goals rw [answer] at taken
    · exact taken
    · exact upheld.instruction taken _
  | handler block =>
    show good (rewrite.addHandler block).2
    unfold addHandler
    simp only
    split <;> exact upheld.quiet holds rfl
  | frame label wanted =>
    have asked := upheld.requestFrame holds label wanted
    show good (keepFault (rewrite.requestFrame label wanted)).2
    rcases answer : rewrite.requestFrame label wanted with ⟨_ | _, after⟩
    all_goals rw [answer] at asked
    · exact upheld.quiet asked rfl
    · exact asked

theorem run (upheld : Upheld good) (actions : List Action) (holds : good rewrite) :
    good (actions.foldl MethodRewrite.act rewrite) := by
  induction actions generalizing rewrite with
  | nil => exact holds
  | cons action rest ih =>
    cases action with
    | own event => exact ih (upheld.step holds event)
    | request request => exact ih (upheld.perform holds request)

end Upheld

end ClassWeave.MethodRewrite
