/-
# ClassWeave.Proofs.SettledSlots -- slots that the straight code at the start fills for good

A label that only backward jumps reach is taken to hold the locals of the straight code
that every run of the method goes through first (`prefixLocals`), and nobody looks
whether the jumps that come later bring them.  They do for a slot that is settled: it is
filled in that code, nothing changes its type afterwards, and no exception handler covers
an instruction before which it had another type (`MethodRewrite.Settled`).  Merging,
assuming, requesting and reading frames all keep a settled slot (`Settled.act`), so every
frame that is recorded and every jump agree about it (`Settled.run`).

Without the condition on handlers they need not agree: the handler of `Sample.upToJump` goes
back to a loop whose frame claims a slot that was not filled when the exception came.
-/
import ClassWeave.Proofs.FrameForms
import ClassWeave.Proofs.FrameSteps
import ClassWeave.Proofs.SimulationSteps
import ClassWeave.Proofs.StackMapTable
import ClassWeave.Proofs.TameCode

set_option autoImplicit false

namespace ClassWeave

/-! ## Slots of merged locals -/

namespace Frame

variable {slot : Nat} {type : FrameType} (hierarchy : Hierarchy)

/-- What two ways have in common they keep where they meet. -/
theorem slotAt_mergeLocals {a b : List FrameType} (left : slotAt a slot = type)
    (right : slotAt b slot = type) : slotAt (mergeLocals hierarchy a b) slot = type := by
  rw [slotAt_mergeLocals_eq, left, right]
  exact if_pos rfl

theorem slotAt_foldl_mergeLocals {first : List FrameType} {rest : List (List FrameType)}
    (own : slotAt first slot = type) (others : ∀ locals ∈ rest, slotAt locals slot = type) :
    slotAt (rest.foldl (mergeLocals hierarchy) first) slot = type := by
  induction rest generalizing first with
  | nil => exact own
  | cons next rest ih =>
    obtain ⟨one, others⟩ := List.forall_mem_cons.1 others
    exact ih (slotAt_mergeLocals hierarchy own one) others

end Frame

/-- The slots above those that a method knows stay as they are. -/
theorem MethodRewrite.slotAt_mergedLocals_above : ∀ {known slot : Nat}
    (original current : List FrameType), known ≤ slot →
    slotAt (mergedLocals known original current) slot = slotAt current slot
  | 0, _, _, _, _ => rfl
  | known + 1, slot + 1, original, current, above => by
    rw [mergedLocals, slotAt_cons_succ, slotAt_mergedLocals_above _ _ (by omega)]
    simp only [slotAt, List.getElem?_tail]

/-! ## Settled slots -/

/-- The frame was recorded where the slot had the type. -/
def PinnedFrame.Types (slot : Nat) (type : FrameType) (frame : PinnedFrame) : Prop :=
  ∃ locals, frame.locals = compactLocals locals ∧ slotAt locals slot = type

namespace MethodRewrite

/-- A slot of injected code has the type wherever the rewrite knows or takes something to be. -/
structure Settled (slot : Nat) (type : FrameType) (rewrite : MethodRewrite) : Prop where
  scratch : rewrite.originalMaxLocals.toNat ≤ slot
  current : slotAt rewrite.current.locals slot = type
  carried : ∀ (label : Label) (frame : Frame), rewrite.saved[label]? = some frame →
    slotAt frame.locals slot = type
  assumed : rewrite.inPrefix = false → slotAt rewrite.prefixLocals slot = type
  straight : rewrite.inPrefix = true → rewrite.reachable = true

/-- Whether the slot has the type before every instruction that a handler covers. -/
def handlersHold (slot : Nat) (type : FrameType) (rewrite : MethodRewrite) : Bool :=
  rewrite.ranges.toList.all fun (_, blocks) =>
    (blocks.toList.flatMap rewrite.covered).all fun locals => slotAt locals slot == type

/-- Whether the instruction leaves the slot as it is, on the frame that it is run on. -/
def spares (slot : Nat) (rewrite : MethodRewrite) (insn : Instruction) : Bool :=
  let (position, rewrite) := rewrite.position insn
  match rewrite.current.execute insn position rewrite.target.className with
  | .ok after => slotAt after.locals slot == slotAt rewrite.current.locals slot
  | .error _ => true

/-- The rewrite has gone on, with the slot as it was in all that was recorded on the way. -/
structure Keeps (slot : Nat) (type : FrameType) (before after : MethodRewrite) : Prop where
  settled : after.Settled slot type
  frames : ∃ pinned, after.body.frames.toList = before.body.frames.toList ++ pinned ∧
    ∀ frame ∈ pinned, frame.Types slot type

variable {slot : Nat} {type : FrameType} {rewrite middle after : MethodRewrite}

theorem Keeps.trans (early : rewrite.Keeps slot type middle) (late : middle.Keeps slot type after) :
    rewrite.Keeps slot type after := by
  obtain ⟨first, recorded, types⟩ := early.frames
  obtain ⟨second, recorded', types'⟩ := late.frames
  refine ⟨late.settled, first ++ second, by rw [recorded', recorded, List.append_assoc], ?_⟩
  intro frame among
  exact (List.mem_append.1 among).elim (types frame) (types' frame)

/-- Nothing recorded. -/
theorem Settled.still (settled : after.Settled slot type)
    (frames : after.body.frames = rewrite.body.frames) : rewrite.Keeps slot type after :=
  ⟨settled, [], by rw [frames, List.append_nil], List.forall_mem_nil _⟩

/-- All that matters for a slot. -/
def slotView (rewrite : MethodRewrite) :=
  (rewrite.originalMaxLocals, rewrite.current.locals, rewrite.saved, rewrite.inPrefix,
    rewrite.prefixLocals, rewrite.reachable, rewrite.body.frames)

/-- Something that does not reach what matters for a slot. -/
theorem Settled.quiet (settled : rewrite.Settled slot type)
    (same : after.slotView = rewrite.slotView) : rewrite.Keeps slot type after := by
  simp only [slotView, Prod.mk.injEq] at same
  obtain ⟨known, current, saved, inPrefix, prefixLocals, reachable, frames⟩ := same
  refine Settled.still ⟨?_, ?_, ?_, ?_, ?_⟩ frames
  · rw [known]
    exact settled.scratch
  · rw [current]
    exact settled.current
  · rw [saved]
    exact settled.carried
  · rw [inPrefix, prefixLocals]
    exact settled.assumed
  · rw [inPrefix, reachable]
    exact settled.straight

theorem Settled.keeps (settled : rewrite.Settled slot type) : rewrite.Keeps slot type rewrite :=
  settled.quiet rfl

/-! ## Labels -/

theorem slotAt_covered (holds : rewrite.handlersHold slot type = true) (handler : Label) :
    ∀ locals ∈ (rewrite.rangesOf handler).flatMap rewrite.covered, slotAt locals slot = type := by
  unfold rangesOf
  cases known : rewrite.ranges[handler]? with
  | none => exact List.forall_mem_nil _
  | some blocks =>
    have among : (handler, blocks) ∈ rewrite.ranges.toList :=
      Std.TreeMap.mem_toList_iff_getElem?_eq_some.2 known
    have each := List.all_eq_true.1 holds (handler, blocks) among
    exact fun locals covered => eq_of_beq (List.all_eq_true.1 each locals covered)

/-- A handler has the slot when all covered instructions have it. -/
theorem Settled.handlerFrame (settled : rewrite.Settled slot type)
    (holds : rewrite.handlersHold slot type = true) (handler : Label) :
    slotAt (rewrite.handlerFrame handler).locals slot = type := by
  have each := slotAt_covered holds handler
  unfold MethodRewrite.handlerFrame
  simp only
  cases covered : (rewrite.rangesOf handler).flatMap rewrite.covered with
  | nil => exact settled.current
  | cons first rest =>
    rw [covered] at each
    obtain ⟨own, others⟩ := List.forall_mem_cons.1 each
    exact Frame.slotAt_foldl_mergeLocals _ own others

/-- Whatever comes to a label has the slot. -/
theorem Settled.arriving (settled : rewrite.Settled slot type)
    (holds : rewrite.handlersHold slot type = true) {label : Label} {frame : Frame}
    (comes : rewrite.arriving label = some frame) : slotAt frame.locals slot = type := by
  unfold MethodRewrite.arriving at comes
  split at comes
  · cases comes
    exact settled.handlerFrame holds label
  · unfold incoming at comes
    split at comes
    · rename_i saved _ found
      cases comes
      exact Frame.slotAt_mergeLocals _ settled.current (settled.carried _ _ found)
    · cases comes
      exact settled.current
    · exact settled.carried _ _ comes

/-- A label that nothing comes to is taken to have the slot, and it has. -/
theorem Settled.placeLabel (settled : rewrite.Settled slot type)
    (holds : rewrite.handlersHold slot type = true) (label : Label) :
    rewrite.Keeps slot type (rewrite.placeLabel label) := by
  have carried (other : Label) (frame : Frame)
      (found : (rewrite.saved.erase label)[other]? = some frame) :
      slotAt frame.locals slot = type := by
    rw [Std.TreeMap.getElem?_erase] at found
    split at found
    · cases found
    · exact settled.carried other frame found
  unfold MethodRewrite.placeLabel
  simp only
  cases comes : rewrite.arriving label with
  | some frame =>
    exact Settled.still ⟨settled.scratch, settled.arriving holds comes, carried, settled.assumed,
      fun _ => rfl⟩ rfl
  | none =>
    -- In the straight code control comes to every label, so the straight code is over, and what is
    -- taken for granted is what was there at its end.
    have left : rewrite.inPrefix = false := by
      rw [Bool.eq_false_iff]
      intro straight
      exact Bool.false_ne_true ((reachable_of_arriving comes).symm.trans (settled.straight straight))
    exact Settled.still ⟨settled.scratch, settled.assumed left, carried, settled.assumed,
      settled.straight⟩ rfl

theorem Settled.labelHere (settled : rewrite.Settled slot type)
    (holds : rewrite.handlersHold slot type = true) :
    rewrite.Keeps slot type rewrite.labelHere.2 := by
  cases group : rewrite.group with
  | cons label others =>
    rw [labelHere_of_group rewrite group]
    exact settled.keeps
  | nil =>
    rw [labelHere_of_empty rewrite group]
    have fresh : rewrite.Keeps slot type rewrite.freshLabel.2 := settled.quiet rfl
    exact fresh.trans (fresh.settled.placeLabel holds rewrite.freshLabel.1)

/-! ## Frames -/

theorem Settled.endPrefix (settled : rewrite.Settled slot type) :
    rewrite.endPrefix.Settled slot type := by
  unfold MethodRewrite.endPrefix
  split
  · exact ⟨settled.scratch, settled.current, settled.carried, fun _ => settled.current,
      fun straight => by cases straight⟩
  · exact settled

theorem frames_endPrefix : rewrite.endPrefix.body.frames = rewrite.body.frames := by
  unfold MethodRewrite.endPrefix
  split <;> rfl

theorem ended_endPrefix : rewrite.endPrefix.inPrefix = false := by
  unfold MethodRewrite.endPrefix
  split
  · rfl
  · rename_i left
    exact Bool.eq_false_iff.2 left

/-- A frame recorded that has the slot. -/
theorem Settled.recordAt (settled : rewrite.Settled slot type) {frame : Frame}
    (holds : slotAt frame.locals slot = type) (requested : Bool) (label : Label) :
    rewrite.Keeps slot type (rewrite.recordAt frame requested label) := by
  have ended := settled.endPrefix
  refine (ended.still frames_endPrefix).trans ⟨⟨ended.scratch, holds, ended.carried, ended.assumed,
    fun _ => rfl⟩, [⟨label, compactLocals frame.locals, frame.stack.reverse⟩],
    Array.toList_push, ?_⟩
  intro pinned among
  rw [List.mem_singleton.1 among]
  exact ⟨frame.locals, rfl, holds⟩

theorem Settled.originalFrame (settled : rewrite.Settled slot type)
    (holds : rewrite.handlersHold slot type = true) (locals stack : List FrameType) :
    rewrite.Keeps slot type (rewrite.originalFrame locals stack) := by
  unfold MethodRewrite.originalFrame
  split
  · exact settled.keeps
  · have here := settled.labelHere holds
    have ended := here.settled.endPrefix
    let now := rewrite.labelHere.2.endPrefix
    let merged : Frame :=
      ⟨mergedLocals now.originalMaxLocals.toNat (expandLocals locals) now.current.locals,
        mergedStack stack.reverse now.current.stack⟩
    -- A slot of injected code comes from the simulation, whatever the frame says.
    have own : slotAt merged.locals slot = type :=
      (slotAt_mergedLocals_above _ _ ended.scratch).trans ended.current
    exact here.trans (here.settled.recordAt own now.frameRequestedHere rewrite.labelHere.1)

theorem Settled.grantFrame (settled : rewrite.Settled slot type)
    (holds : rewrite.handlersHold slot type = true) (label : Label) (wanted : FrameRequest) :
    rewrite.Keeps slot type (rewrite.grantFrame label wanted) := by
  have wants : slotAt (rewrite.requestedFrame label wanted).locals slot = type := by
    unfold requestedFrame
    simp only
    split
    · exact settled.handlerFrame holds label
    · exact settled.current
  let asked :=
    rewrite.ask (if rewrite.isHandler label then rewrite.handlerQuestions label else [])
  have quiet : rewrite.Keeps slot type asked := settled.quiet rfl
  exact quiet.trans (quiet.settled.recordAt wants true label)

theorem Settled.requestFrame (settled : rewrite.Settled slot type)
    (holds : rewrite.handlersHold slot type = true) (label : Label) (wanted : FrameRequest) :
    rewrite.Keeps slot type (rewrite.requestFrame label wanted).2 := by
  unfold MethodRewrite.requestFrame
  split
  · exact settled.keeps
  · simp only
    split
    · exact settled.quiet rfl
    · split
      · exact settled.quiet rfl
      · exact settled.quiet rfl
      · rename_i ledger _
        have booked : rewrite.Keeps slot type
            { rewrite with injected := true, ledger := ledger } := settled.quiet rfl
        exact booked.trans (booked.settled.grantFrame holds label wanted)

/-! ## Instructions -/

/-- A place that is waited for gets what the slot has. -/
theorem Settled.carry (settled : rewrite.Settled slot type) (label : Label) :
    rewrite.Keeps slot type (rewrite.carry label) := by
  have inserted {frame : Frame} (holds : slotAt frame.locals slot = type) (other : Label)
      (found : Frame) (known : (rewrite.saved.insert label frame)[other]? = some found) :
      slotAt found.locals slot = type := by
    rw [Std.TreeMap.getElem?_insert] at known
    split at known
    · cases known
      exact holds
    · exact settled.carried other found known
  unfold MethodRewrite.carry
  split
  · exact settled.keeps
  · split
    · exact Settled.still ⟨settled.scratch, settled.current, inserted settled.current,
        settled.assumed, settled.straight⟩ rfl
    · rename_i saved known
      have merged := Frame.slotAt_mergeLocals rewrite.target.hierarchy
        (settled.carried label saved known) settled.current
      exact Settled.still ⟨settled.scratch, settled.current, inserted merged, settled.assumed,
        settled.straight⟩ rfl

theorem Settled.foldl_carry {labels : List Label} (settled : rewrite.Settled slot type) :
    rewrite.Keeps slot type (labels.foldl MethodRewrite.carry rewrite) := by
  induction labels generalizing rewrite with
  | nil => exact settled.keeps
  | cons label labels ih =>
    have carried := settled.carry label
    exact carried.trans (ih carried.settled)

theorem Settled.simulate {insn : Instruction} {position : Label}
    (settled : rewrite.Settled slot type)
    (spares : ∀ after, rewrite.current.execute insn position rewrite.target.className = .ok after →
      slotAt after.locals slot = slotAt rewrite.current.locals slot) :
    rewrite.Keeps slot type (rewrite.simulate insn position) := by
  unfold MethodRewrite.simulate
  split
  · split
    · rename_i frame done
      have holds := (spares frame done).trans settled.current
      exact Settled.still ⟨settled.scratch, holds, settled.carried, settled.assumed,
        settled.straight⟩ rfl
    · have holds : slotAt (rewrite.current.afterFailure insn position).locals slot = type := by
        rw [Frame.locals_afterFailure]
        exact settled.current
      exact Settled.still ⟨settled.scratch, holds, settled.carried, settled.assumed,
        settled.straight⟩ rfl
  · exact settled.keeps

theorem Settled.leave (settled : rewrite.Settled slot type) (insn : Instruction) :
    rewrite.Keeps slot type (rewrite.leave insn) := by
  unfold MethodRewrite.leave
  simp only
  have jumped : rewrite.Keeps slot type
      (if rewrite.reachable then insn.targets.foldl MethodRewrite.carry rewrite else rewrite) := by
    split
    · exact settled.foldl_carry
    · exact settled.keeps
  revert jumped
  generalize (if rewrite.reachable then insn.targets.foldl MethodRewrite.carry rewrite else rewrite)
    = gone
  intro jumped
  have ended : rewrite.Keeps slot type gone.endPrefix :=
    jumped.trans (jumped.settled.endPrefix.still frames_endPrefix)
  cases ends : insn.opcode.endsFlow with
  | true =>
    simp only [Bool.true_or, if_true]
    refine ended.trans (Settled.still ⟨ended.settled.scratch, ended.settled.current,
      ended.settled.carried, ended.settled.assumed, fun straight => ?_⟩ rfl)
    -- Control is gone, but so is the straight code.
    exact absurd (ended_endPrefix.symm.trans straight) Bool.false_ne_true
  | false =>
    simp only [Bool.false_or, Bool.false_eq_true, if_false]
    split
    · exact ended
    · exact jumped

theorem Settled.position (settled : rewrite.Settled slot type)
    (holds : rewrite.handlersHold slot type = true) (insn : Instruction) :
    rewrite.Keeps slot type (rewrite.position insn).2 := by
  unfold MethodRewrite.position
  split
  · exact settled.keeps
  · split
    · exact settled.labelHere holds
    · exact settled.keeps

theorem Settled.instruction {insn : Instruction} (settled : rewrite.Settled slot type)
    (holds : rewrite.handlersHold slot type = true) (spares : rewrite.spares slot insn = true) :
    rewrite.Keeps slot type (rewrite.instruction insn) := by
  unfold MethodRewrite.instruction
  split
  · exact settled.quiet rfl
  · have placed := settled.position holds insn
    unfold MethodRewrite.spares at spares
    rcases at_ : rewrite.position insn with ⟨position, reached⟩
    rw [at_] at placed spares
    simp only at placed spares ⊢
    have same (after : Frame)
        (done : reached.current.execute insn position reached.target.className = .ok after) :
        slotAt after.locals slot = slotAt reached.current.locals slot := by
      rw [done] at spares
      exact eq_of_beq spares
    let noted := { reached with snapshots := reached.snapshots.push reached.current.locals }
    have seen : reached.Keeps slot type noted := placed.settled.quiet rfl
    have ran : noted.Keeps slot type (noted.simulate insn position) := seen.settled.simulate same
    have left := ran.settled.leave insn
    have put : Keeps slot type ((noted.simulate insn position).leave insn)
      (((noted.simulate insn position).leave insn).putInstruction insn) := left.settled.quiet rfl
    exact placed.trans (seen.trans (ran.trans (left.trans put)))

/-! ## Actions -/

/-- What comes with no instruction, no size and no frame. -/
theorem Settled.close (settled : rewrite.Settled slot type) :
    rewrite.Keeps slot type rewrite.close := by
  unfold MethodRewrite.close
  split
  · exact settled.keeps
  · split
    · exact settled.quiet rfl
    · simp only
      split <;> exact settled.quiet rfl

end MethodRewrite

/-- Whether an event leaves the slot to injected code, and as it is. -/
def MethodEvent.spares (slot : Nat) (rewrite : MethodRewrite) : MethodEvent → Bool
  | .insn own => rewrite.spares slot own
  | .sizes _ maxLocals | .maxs _ maxLocals => maxLocals.toNat ≤ slot
  | _ => true

def Injection.Request.spares (slot : Nat) (rewrite : MethodRewrite) : Injection.Request → Bool
  | .event told => told.spares slot { rewrite with injected := true }
  | .store type =>
    match rewrite.allocate type with
    | (.ok own, rewrite) => rewrite.spares slot (.var type.storeOpcode own)
    | (.error _, _) => true
  | _ => true

def Action.spares (slot : Nat) (rewrite : MethodRewrite) : Action → Bool
  | .own told => told.spares slot rewrite
  | .request asked => asked.spares slot rewrite

namespace MethodRewrite

variable {slot : Nat} {type : FrameType} {rewrite : MethodRewrite}

theorem Settled.step {event : MethodEvent} (settled : rewrite.Settled slot type)
    (holds : rewrite.handlersHold slot type = true) (spares : event.spares slot rewrite = true) :
    rewrite.Keeps slot type (rewrite.step event) := by
  cases event with
  | sizes maxStack maxLocals =>
    exact Settled.still ⟨of_decide_eq_true spares, settled.current, settled.carried,
      settled.assumed, settled.straight⟩ rfl
  | maxs maxStack maxLocals =>
    have within : (max rewrite.originalMaxLocals maxLocals).toNat ≤ slot := by
      have new : maxLocals.toNat ≤ slot := of_decide_eq_true spares
      have old := settled.scratch
      show (if _ ≤ _ then _ else _ : UInt16).toNat ≤ slot
      split <;> assumption
    exact Settled.still ⟨within, settled.current, settled.carried, settled.assumed,
      settled.straight⟩ rfl
  | frame locals stack => exact settled.originalFrame holds locals stack
  | label label => exact settled.placeLabel holds label
  | insn insn => exact settled.instruction holds spares
  | finish => exact settled.close
  | line | tryBlock | «variable» => exact settled.quiet rfl

theorem Settled.allocate (settled : rewrite.Settled slot type) (value : ValueType) :
    rewrite.Keeps slot type (rewrite.allocate value).2 := by
  unfold MethodRewrite.allocate
  simp only
  split <;> exact settled.quiet rfl

theorem handlersHold_allocate (value : ValueType) :
    (rewrite.allocate value).2.handlersHold slot type = rewrite.handlersHold slot type := by
  unfold MethodRewrite.allocate
  simp only
  split <;> rfl

theorem Settled.perform {request : Injection.Request} (settled : rewrite.Settled slot type)
    (holds : rewrite.handlersHold slot type = true) (spares : request.spares slot rewrite = true) :
    rewrite.Keeps slot type (rewrite.perform request) := by
  cases request with
  | label | fault => exact settled.quiet rfl
  | event event =>
    have marked : rewrite.Keeps slot type { rewrite with injected := true } := settled.quiet rfl
    exact marked.trans (marked.settled.step holds spares)
  | slot value => exact settled.allocate value
  | store value =>
    have taken := settled.allocate value
    -- A store is told by its allocation and then by the instruction, which spares the slot there.
    have kept : (rewrite.allocate value).2.handlersHold slot type = true := by
      rw [handlersHold_allocate]
      exact holds
    show rewrite.Keeps slot type (rewrite.storeNew value).2
    simp only [Injection.Request.spares] at spares
    unfold storeNew
    rcases answer : rewrite.allocate value with ⟨_ | own, reached⟩
    all_goals rw [answer] at taken kept spares
    · exact taken
    · exact taken.trans (taken.settled.instruction kept spares)
  | handler block =>
    show rewrite.Keeps slot type (rewrite.addHandler block).2
    unfold addHandler
    simp only
    split <;> exact settled.quiet rfl
  | frame label wanted =>
    have asked := settled.requestFrame holds label wanted
    show rewrite.Keeps slot type (keepFault (rewrite.requestFrame label wanted)).2
    rcases answer : rewrite.requestFrame label wanted with ⟨_ | _, after⟩
    all_goals rw [answer] at asked
    · exact asked.trans (asked.settled.quiet rfl)
    · exact asked

theorem Settled.act {action : Action} (settled : rewrite.Settled slot type)
    (holds : rewrite.handlersHold slot type = true) (spares : action.spares slot rewrite = true) :
    rewrite.Keeps slot type (rewrite.act action) := by
  cases action with
  | own event => exact settled.step holds spares
  | request request => exact settled.perform holds spares

/-- Whether all actions of a run leave the slot as it is, and all handlers on the way have it. -/
def spared (slot : Nat) (type : FrameType) : MethodRewrite → List Action → Bool
  | _, [] => true
  | rewrite, action :: rest =>
    rewrite.handlersHold slot type && action.spares slot rewrite
      && (rewrite.act action).spared slot type rest

theorem Settled.run {actions : List Action} (settled : rewrite.Settled slot type)
    (spared : rewrite.spared slot type actions = true) :
    rewrite.Keeps slot type (actions.foldl MethodRewrite.act rewrite) := by
  induction actions generalizing rewrite with
  | nil => exact settled.keeps
  | cons action rest ih =>
    simp only [MethodRewrite.spared, Bool.and_eq_true] at spared
    obtain ⟨⟨holds, spares⟩, later⟩ := spared
    have here := settled.act holds spares
    exact here.trans (ih here.settled later)

/-! ## The straight code at the start -/

/-- As long as the rewrite goes straight on from the start, control is there and no jump is under
way. -/
def Straight (rewrite : MethodRewrite) : Prop :=
  rewrite.inPrefix = true →
    rewrite.reachable = true ∧ ∀ label : Label, rewrite.saved[label]? = none

theorem straight_start (target : RewriteTarget) (method : MethodContext) :
    (start target method).Straight :=
  fun _ => ⟨rfl, fun _ => Std.TreeMap.getElem?_emptyc⟩

theorem Straight.of_left (left : rewrite.inPrefix = false) : rewrite.Straight :=
  fun inside => absurd (left.symm.trans inside) Bool.false_ne_true

theorem Straight.placeLabel (straight : rewrite.Straight) (label : Label) :
    (rewrite.placeLabel label).Straight := by
  have kept : (rewrite.placeLabel label).inPrefix = rewrite.inPrefix := by
    unfold MethodRewrite.placeLabel
    simp only
    split <;> rfl
  intro inside
  rw [kept] at inside
  obtain ⟨reachable, nothing⟩ := straight inside
  refine ⟨?_, fun other => ?_⟩
  · unfold MethodRewrite.placeLabel
    simp only
    split
    · rfl
    · exact reachable
  · have left : (rewrite.placeLabel label).saved = rewrite.saved.erase label :=
      congrArg Prod.fst (rewrite.links_placeLabel label)
    rw [left, Std.TreeMap.getElem?_erase, nothing, ite_self]

theorem Straight.simulate (straight : rewrite.Straight) (insn : Instruction) (position : Label) :
    (rewrite.simulate insn position).Straight := by
  unfold MethodRewrite.simulate
  split
  · split <;> exact straight
  · exact straight

/-- A jump ends the straight code. -/
theorem Straight.leave (straight : rewrite.Straight) (insn : Instruction) :
    (rewrite.leave insn).Straight := by
  unfold MethodRewrite.leave
  simp only
  cases ends : insn.opcode.endsFlow with
  | true => exact .of_left ended_endPrefix
  | false =>
    cases targets : insn.targets with
    | cons => exact .of_left ended_endPrefix
    | nil =>
      simp only [List.foldl_nil, ite_self, List.isEmpty_nil]
      exact straight

theorem upheld_straight : Upheld Straight where
  quiet {before after} straight same := by
    simp only [simulation, Prod.mk.injEq] at same
    obtain ⟨-, -, reachable, saved, inPrefix, -, -⟩ := same
    unfold Straight
    rw [inPrefix, reachable, saved]
    exact straight
  placeLabel label straight := straight.placeLabel label
  recordAt _ _ _ _ := .of_left ended_endPrefix
  simulate insn position straight := straight.simulate insn position
  leave insn straight := straight.leave insn

/-- **A slot that is filled in the straight code at the start keeps its type** in every frame that
is recorded later and at every jump, if nothing writes to it any more and it had the type before
every instruction that a handler covers. -/
theorem straight_slot_kept {target : RewriteTarget} {method : MethodContext}
    {first rest : List Action} {top : MethodRewrite}
    (reached : first.foldl act (start target method) = top) (inside : top.inPrefix = true)
    (scratch : top.originalMaxLocals.toNat ≤ slot)
    (spared : top.spared slot (slotAt top.current.locals slot) rest = true) :
    top.Keeps slot (slotAt top.current.locals slot) (rest.foldl act top) := by
  have straight : top.Straight := reached ▸ upheld_straight.run first (straight_start target method)
  obtain ⟨reachable, nothing⟩ := straight inside
  refine Settled.run ⟨scratch, rfl, fun label frame known => ?_, fun left => ?_, fun _ => reachable⟩
    spared
  · rw [nothing] at known
    cases known
  · exact absurd (left.symm.trans inside) Bool.false_ne_true

end MethodRewrite

/-- A method of an integer, about to be rewritten. -/
def Sample.begun : MethodRewrite :=
  MethodRewrite.start (.start "A" 52 (ConstantPool.ofEntries #[]) Hierarchy.flat Options.standard)
    ⟨0, 8, "m", "(I)V"⟩

/-- Injected code stores an integer at the entry. -/
def Sample.stores : List Action :=
  [.own (.sizes 1 1), .request (.event (.insn (.simple Opcode.iconst0))), .request (.store .int)]

/-- A loop that is entered at its end: the label at its start is reached by the jump back only. -/
def Sample.bottomTested : List Action :=
  [.own (.insn (.jump Opcode.goto ⟨4⟩)), .own (.label ⟨3⟩), .own (.frame [.int] []),
    .own (.insn (.simple Opcode.nop)), .own (.label ⟨4⟩), .own (.frame [.int] []),
    .own (.insn (.var Opcode.iload 0)), .own (.insn (.jump 0x9A ⟨3⟩)),
    .own (.insn (.simple Opcode.voidReturn))]

/-- The rewrite between the two. -/
def Sample.filled : MethodRewrite := Sample.stores.foldl MethodRewrite.act Sample.begun

theorem MethodRewrite.straight_slot_kept_loop : Sample.filled.inPrefix = true ∧
    Sample.filled.originalMaxLocals.toNat ≤ 1 ∧ slotAt Sample.filled.current.locals 1 = .int ∧
    Sample.filled.spared 1 (slotAt Sample.filled.current.locals 1) Sample.bottomTested = true ∧
    Sample.filled.Keeps 1 (slotAt Sample.filled.current.locals 1)
      (Sample.bottomTested.foldl MethodRewrite.act Sample.filled) := by
  have inside : Sample.filled.inPrefix = true := by decide +kernel
  have scratch : Sample.filled.originalMaxLocals.toNat ≤ 1 := by decide +kernel
  have spared : Sample.filled.spared 1 (slotAt Sample.filled.current.locals 1)
      Sample.bottomTested = true := by decide +kernel
  exact ⟨inside, scratch, by decide +kernel, spared,
    MethodRewrite.straight_slot_kept rfl inside scratch spared⟩

/-! ## A handler of the straight code -/

/-- A call, and then a loop that is entered at its end.  When the call fails, a handler goes to the
start of the loop; this is the method up to its jump. -/
def Sample.upToJump : List MethodEvent :=
  [.sizes 1 1, .tryBlock ⟨⟨0⟩, ⟨3⟩, ⟨14⟩, none⟩, .label ⟨0⟩,
    .insn (.method Opcode.invokestatic ⟨"demo/C", "f", "()I"⟩ false), .label ⟨3⟩,
    .insn (.simple Opcode.pop), .label ⟨4⟩, .insn (.jump Opcode.goto ⟨8⟩),
    .label ⟨7⟩, .frame [.int] [], .insn (.simple Opcode.nop),
    .label ⟨8⟩, .frame [.int] [], .insn (.var Opcode.iload 0), .label ⟨10⟩,
    .insn (.jump 0x9A ⟨7⟩), .label ⟨13⟩, .insn (.simple Opcode.voidReturn),
    .label ⟨14⟩, .frame [.int] [.object ClassName.throwable], .insn (.simple Opcode.pop),
    .label ⟨15⟩]

/-- The result of every call is captured, and nothing is done with it. -/
def Sample.afterCalls : Layer :=
  Layer.start ⟨"demo/C", "m", none, ⟨"", "", "", "", 0, .call, .after⟩, Snippet.probeCode []⟩
    ⟨0, 9, "m", "(I)V"⟩

/-- The method rewritten, up to the events given. -/
def Sample.called (events : List MethodEvent) : MethodRewrite :=
  (Layer.runAll [Sample.afterCalls] events
    (.start (.start "demo/C" 52 (ConstantPool.ofEntries #[]) Hierarchy.flat Options.standard)
      ⟨0, 9, "m", "(I)V"⟩)).2

/-- The rest of the method, but for its end. -/
def Sample.fromJump : List MethodEvent :=
  [.insn (.jump Opcode.goto ⟨7⟩), .label ⟨18⟩, .maxs 1 1]

/-- The result of the call is in slot 1 behind the call, and the frame at the start of the loop says
so.  When the call fails it is not there, and the handler goes to the start of the loop; nothing is
wrong with the method. -/
theorem handler_lacks_slot :
    (Sample.called Sample.upToJump).reachable = true ∧
    (Sample.called Sample.upToJump).positions.contains ⟨7⟩ = true ∧
    ⟨⟨7⟩, [.int, .int], []⟩ ∈ (Sample.called Sample.upToJump).body.frames.toList ∧
    (Sample.called Sample.upToJump).originalMaxLocals = 1 ∧
    slotAt (Sample.called Sample.upToJump).current.locals 1 = .top ∧
    (Sample.called (Sample.upToJump ++ Sample.fromJump)).fault = none ∧
    ((Sample.called (Sample.upToJump ++ Sample.fromJump)).serialize
      (ConstantPool.ofEntries #[])).1.isOk = true := by
  refine ⟨by decide +kernel, by decide +kernel, by decide +kernel, by decide +kernel,
    by decide +kernel, by decide +kernel, ?_⟩
  simp only [MethodRewrite.serialize, AssembledCode.encode, AssembledCode.stackMapTable,
    StackMap.encode_by_insertion]
  decide +kernel

end ClassWeave
