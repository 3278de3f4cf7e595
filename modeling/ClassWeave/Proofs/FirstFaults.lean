/-
# ClassWeave.Proofs.FirstFaults -- the first fault decides about a method

Nothing that reaches a method being rewritten can stop it; what goes wrong is kept, and
decides when the method ends.  `MethodRewrite.trouble` says what goes wrong with a single
action, by the answer that a request gets or by running an instruction, and whether
anybody listens to the answer does not matter.  A run has the fault of the first action
that anything goes wrong with (`run_fault`), and is marked as injected into by its
requests alone (`run_standing`).

So the end of a method finds out one of three things: a fault, which goes to the class
unless an earlier method has failed; new code; or nothing to do (`finish_leaves`).
-/
import ClassWeave.Proofs.RewriteTrace

set_option autoImplicit false

namespace ClassWeave

open Outcome

/-! ## Actions -/

namespace Action

/-- The end of the method, whoever tells it. -/
def ends : Action → Bool
  | .own .finish | .request (.event .finish) => true
  | _ => false

/-- The sizes of the code, which only methods with code are told. -/
def tellsCode : Action → Bool
  | .own (.sizes _ _) | .request (.event (.sizes _ _)) => true
  | _ => false

/-- Requests that something comes into the method by: code that is emitted, a slot, a handler or a
frame. -/
def marks : Action → Bool
  | .request (.event _) | .request (.slot _) | .request (.store _) | .request (.handler _)
  | .request (.frame _ _) => true
  | _ => false

end Action

namespace MethodRewrite

/-- To ask for a place to emit code at is to inject, even if nothing is emitted. -/
theorem inject_nothing (rewrite : MethodRewrite) :
    rewrite.inject (.maxs 0 0) = { rewrite with injected := true } := by
  have low (n : UInt16) : max n 0 = n := by
    show (if n ≤ 0 then 0 else n) = n
    split
    · rename_i small
      exact UInt16.le_antisymm UInt16.zero_le small
    · rfl
  simp only [inject, step, low]

/-- What goes wrong with an instruction: the method is closed, or the instruction cannot be run on
the frame at its place, if control can be there. -/
def instructionTrouble (rewrite : MethodRewrite) (insn : Instruction) : Option InstrumentError :=
  if rewrite.ledger.phase ≠ .open then some (.methodClosed rewrite.ledger.phase)
  else
    let (position, placed) := rewrite.position insn
    if placed.reachable then
      cause? (placed.current.execute insn position placed.target.className)
    else none

/-- What goes wrong with an action, whatever went wrong before. -/
def trouble (rewrite : MethodRewrite) : Action → Option InstrumentError
  | .own (.insn insn) => rewrite.instructionTrouble insn
  | .request (.event (.insn insn)) => { rewrite with injected := true }.instructionTrouble insn
  | .request (.slot type) => cause? (rewrite.allocate type).1
  | .request (.store type) =>
    match rewrite.allocate type with
    | (.ok slot, taken) => taken.instructionTrouble (.var type.storeOpcode slot)
    | (.error cause, _) => some cause
  | .request (.handler block) => cause? (rewrite.addHandler block).1
  | .request (.frame label wanted) => cause? (rewrite.askFrame label wanted).1
  | .request (.fault cause) => some cause
  | _ => none

/-- What goes wrong first in a run of actions. -/
def firstTrouble : MethodRewrite → List Action → Option InstrumentError
  | _, [] => none
  | rewrite, action :: rest => (rewrite.trouble action).or ((rewrite.act action).firstTrouble rest)

/-! ## Faults -/

variable (rewrite : MethodRewrite)

@[simp] theorem fault_fail (cause : InstrumentError) :
    (rewrite.fail cause).fault = rewrite.fault.or (some cause) := by
  unfold fail
  cases rewrite.fault <;> rfl

@[simp] theorem fault_endPrefix : rewrite.endPrefix.fault = rewrite.fault := by
  unfold endPrefix
  split <;> rfl

@[simp] theorem fault_placeLabel (label : Label) :
    (rewrite.placeLabel label).fault = rewrite.fault := by
  unfold placeLabel
  simp only
  split <;> rfl

@[simp] theorem fault_labelHere : rewrite.labelHere.2.fault = rewrite.fault := by
  cases group : rewrite.group with
  | cons label others => rw [labelHere_of_group rewrite group]
  | nil =>
    rw [labelHere_of_empty rewrite group]
    exact fault_placeLabel _ _

@[simp] theorem fault_originalFrame (locals stack : List FrameType) :
    (rewrite.originalFrame locals stack).fault = rewrite.fault := by
  unfold originalFrame
  split
  · rfl
  · exact (fault_endPrefix _).trans (fault_labelHere _)

@[simp] theorem fault_position (insn : Instruction) :
    (rewrite.position insn).2.fault = rewrite.fault := by
  unfold position
  split
  · rfl
  · split
    · exact fault_labelHere _
    · rfl

@[simp] theorem fault_foldl_carry (labels : List Label) :
    (labels.foldl carry rewrite).fault = rewrite.fault := by
  induction labels generalizing rewrite with
  | nil => rfl
  | cons label labels ih =>
    rw [List.foldl_cons, ih]
    unfold carry
    split
    · rfl
    · split <;> rfl

@[simp] theorem fault_leave (insn : Instruction) : (rewrite.leave insn).fault = rewrite.fault := by
  have carried : (if rewrite.reachable then insn.targets.foldl carry rewrite else rewrite).fault =
      rewrite.fault := by
    split
    · exact fault_foldl_carry _ _
    · rfl
  unfold leave
  simp only
  split <;> split <;> first
    | exact carried
    | exact (fault_endPrefix _).trans carried

theorem fault_simulate (insn : Instruction) (position : Label) :
    (rewrite.simulate insn position).fault = rewrite.fault.or
      (if rewrite.reachable then
        cause? (rewrite.current.execute insn position rewrite.target.className)
      else none) := by
  unfold simulate
  cases failed : rewrite.fault with
  | some cause => simp [failed]
  | none =>
    cases reached : rewrite.reachable with
    | false => simp [failed]
    | true =>
      cases ran : rewrite.current.execute insn position rewrite.target.className with
      | ok frame => simp [noteDepth, cause?]
      | error cause => simp [noteDepth, moveTo, failed, cause?]

theorem fault_instruction (insn : Instruction) :
    (rewrite.instruction insn).fault = rewrite.fault.or (rewrite.instructionTrouble insn) := by
  unfold instruction instructionTrouble
  by_cases taken : rewrite.ledger.phase = .open
  · rw [if_neg (not_not_intro taken), if_neg (not_not_intro taken)]
    have same := fault_position rewrite insn
    rcases here : rewrite.position insn with ⟨position, placed⟩
    rw [here] at same
    rw [← same]
    exact (fault_leave _ insn).trans (fault_simulate _ insn position)
  · rw [if_pos taken, if_pos taken]
    exact fault_fail _ _

theorem fault_keepFault {α : Type} (answer : Except InstrumentError α × MethodRewrite) :
    (keepFault answer).2.fault = answer.2.fault.or (cause? (keepFault answer).1) := by
  obtain ⟨_ | _, rewrite⟩ := answer
  · exact fault_fail _ _
  · exact (Option.or_none).symm

theorem fault_step (event : MethodEvent) (goesOn : event ≠ .finish) :
    (rewrite.step event).fault = rewrite.fault.or (rewrite.trouble (.own event)) := by
  cases event with
  | insn insn => exact fault_instruction rewrite insn
  | finish => exact absurd rfl goesOn
  | frame locals stack => exact (fault_originalFrame _ _ _).trans Option.or_none.symm
  | label label => exact (fault_placeLabel _ _).trans Option.or_none.symm
  | _ => exact Option.or_none.symm

theorem fault_allocate (type : ValueType) :
    (rewrite.allocate type).2.fault = rewrite.fault.or (cause? (rewrite.allocate type).1) := by
  refine (fault_keepFault _).trans (congrArg (Option.or · _) ?_)
  split <;> rfl

theorem fault_requestFrame (label : Label) (wanted : FrameRequest) :
    (rewrite.requestFrame label wanted).2.fault = rewrite.fault := by
  unfold requestFrame
  split
  · rfl
  · simp only
    split
    · rfl
    · split
      · rfl
      · rfl
      · exact fault_endPrefix _

theorem fault_perform (request : Injection.Request) (goesOn : request ≠ .event .finish) :
    (rewrite.perform request).fault = rewrite.fault.or (rewrite.trouble (.request request)) := by
  cases request with
  | label => exact Option.or_none.symm
  | event event =>
    have more : event ≠ .finish := fun same => goesOn (same ▸ rfl)
    have stepped := fault_step { rewrite with injected := true } event more
    cases event <;> exact stepped
  | slot type => exact rewrite.fault_allocate type
  | store type =>
    -- A store is an allocation and, if that succeeds, an instruction: only one of them fails.
    have taken := rewrite.fault_allocate type
    show (rewrite.storeNew type).2.fault = _
    simp only [storeNew, trouble]
    rcases answer : rewrite.allocate type with ⟨_ | slot, after⟩
    · rw [answer] at taken
      exact taken
    · rw [answer] at taken
      have kept : after.fault = rewrite.fault := taken.trans Option.or_none
      rw [← kept]
      exact after.fault_instruction _
  | handler block =>
    refine (fault_keepFault _).trans (congrArg (Option.or · _) ?_)
    simp only
    split <;> rfl
  | frame label wanted =>
    exact (fault_keepFault _).trans (congrArg (Option.or · _) (fault_requestFrame _ _ _))
  | fault cause => exact fault_fail _ _

/-! ## What stays as it is before the end -/

/-- What only the sizes, the mark of injected code and the end of a method change. -/
structure Standing where
  method : MethodContext
  target : RewriteTarget
  phase : Phase
  hasCode : Bool
  injected : Bool

/-- Where the method stands; what is asked of the hierarchy does not matter to it. -/
def standing : Standing :=
  ⟨rewrite.method, rewrite.outline.target, rewrite.ledger.phase, rewrite.hasCode, rewrite.injected⟩

theorem standing_of_outline {before after : MethodRewrite} (same : after.outline = before.outline) :
    after.standing = before.standing := by
  have standing (rewrite : MethodRewrite) : rewrite.standing = rewrite.outline.standing := rfl
  rw [standing before, standing after, same]

theorem standing_labelHere : rewrite.labelHere.2.standing = rewrite.standing := by
  cases group : rewrite.group with
  | cons label others => rw [labelHere_of_group rewrite group]
  | nil =>
    rw [labelHere_of_empty rewrite group]
    have placed := congrArg standing
      (outline_placeLabel rewrite.freshLabel.2 rewrite.freshLabel.1)
    exact placed

theorem standing_instruction (insn : Instruction) :
    (rewrite.instruction insn).standing = rewrite.standing := by
  by_cases taken : rewrite.ledger.phase = .open
  · have placed : (rewrite.position insn).2.standing = rewrite.standing := by
      unfold position
      split
      · rfl
      · split
        · exact standing_labelHere rewrite
        · rfl
    exact (congrArg standing (outline_instruction rewrite insn taken)).trans placed
  · unfold instruction
    rw [if_pos taken]
    rfl

theorem standing_step (event : MethodEvent) (goesOn : event ≠ .finish) :
    (rewrite.step event).standing =
      { rewrite.standing with hasCode := rewrite.hasCode || (Action.own event).tellsCode } := by
  have same : rewrite.standing = { rewrite.standing with hasCode := rewrite.hasCode || false } := by
    rw [Bool.or_false]
    rfl
  cases event with
  | sizes maxStack maxLocals =>
    simp only [Action.tellsCode, Bool.or_true]
    rfl
  | frame locals stack =>
    rcases rewrite.outline_originalFrame locals stack with ⟨_, kept⟩ | ⟨_, frame, _, pinned⟩
    · exact (congrArg standing kept).trans same
    · exact ((congrArg standing pinned).trans (standing_labelHere rewrite)).trans same
  | label label => exact (congrArg standing (outline_placeLabel rewrite label)).trans same
  | insn insn => exact (standing_instruction rewrite insn).trans same
  | finish => exact absurd rfl goesOn
  | _ => exact same

theorem standing_inject (event : MethodEvent) (goesOn : event ≠ .finish) :
    (rewrite.inject event).standing =
      { rewrite.standing with
        hasCode := rewrite.hasCode || (Action.own event).tellsCode, injected := true } :=
  standing_step { rewrite with injected := true } event goesOn

theorem standing_allocate (type : ValueType) :
    (rewrite.allocate type).2.standing = { rewrite.standing with injected := true } := by
  have taken := congrArg standing (outline_allocate rewrite type)
  cases given : rewrite.ledger.allocate type with
  | ok slot =>
    simp only [given] at taken
    refine taken.trans ?_
    simp only [standing, Ledger.phase_of_allocate given]
    rfl
  | error cause =>
    simp only [given] at taken
    exact taken

theorem standing_addHandler (block : TryBlock) :
    (rewrite.addHandler block).2.standing = { rewrite.standing with injected := true } := by
  have added := congrArg standing (outline_addHandler rewrite block)
  cases given : rewrite.ledger.addHandler block with
  | ok ledger =>
    simp only [given] at added
    refine added.trans ?_
    simp only [standing, Ledger.phase_of_addHandler given]
    rfl
  | error cause =>
    simp only [given] at added
    exact added

theorem standing_askFrame (label : Label) (wanted : FrameRequest)
    (taken : rewrite.ledger.phase = .open) :
    (rewrite.askFrame label wanted).2.standing = { rewrite.standing with injected := true } := by
  refine (standing_of_outline (outline_askFrame rewrite label wanted)).trans ?_
  have free : rewrite.ledger.ensureOpen = .ok () := if_pos taken
  unfold requestFrame
  rw [free]
  simp only
  split
  · rfl
  · split
    · rfl
    · rfl
    · rename_i ledger asked
      obtain ⟨frame, _, granted⟩ := outline_grantFrame
        { rewrite with injected := true, ledger := ledger } label wanted
      refine (congrArg standing granted).trans ?_
      simp only [standing, withFrame, outline, Ledger.phase_of_request asked]

theorem standing_perform (request : Injection.Request) (goesOn : request ≠ .event .finish)
    (taken : rewrite.ledger.phase = .open) :
    (rewrite.perform request).standing =
      { rewrite.standing with
        hasCode := rewrite.hasCode || (Action.request request).tellsCode
        injected := rewrite.injected || (Action.request request).marks } := by
  -- Every request either leaves the flags alone or marks the method as injected.
  have quiet : rewrite.standing = { rewrite.standing with
      hasCode := rewrite.hasCode || false, injected := rewrite.injected || false } := by
    rw [Bool.or_false, Bool.or_false]
    rfl
  have marked : { rewrite.standing with injected := true } = { rewrite.standing with
      hasCode := rewrite.hasCode || false, injected := rewrite.injected || true } := by
    rw [Bool.or_false, Bool.or_true]
    rfl
  cases request with
  | label | fault => exact quiet
  | event event =>
    have more : event ≠ .finish := fun same => goesOn (same ▸ rfl)
    refine (standing_inject rewrite event more).trans ?_
    cases event <;> simp [Action.tellsCode, Action.marks]
  | slot type => exact (standing_allocate rewrite type).trans marked
  | store type =>
    have taken := standing_allocate rewrite type
    show (rewrite.storeNew type).2.standing = _
    unfold storeNew
    rcases answer : rewrite.allocate type with ⟨_ | slot, after⟩
    · rw [answer] at taken
      exact taken.trans marked
    · rw [answer] at taken
      exact ((standing_instruction after _).trans taken).trans marked
  | handler block => exact (standing_addHandler rewrite block).trans marked
  | frame label wanted => exact (standing_askFrame rewrite label wanted taken).trans marked

/-! ## Runs -/

theorem act_standing {action : Action} (goesOn : action.ends = false)
    (taken : rewrite.ledger.phase = .open) :
    (rewrite.act action).standing =
      { rewrite.standing with
        hasCode := rewrite.hasCode || action.tellsCode
        injected := rewrite.injected || action.marks } := by
  cases action with
  | own event =>
    have more : event ≠ .finish := by
      rintro rfl
      cases goesOn
    refine (standing_step rewrite event more).trans ?_
    simp [Action.marks, standing]
  | request request =>
    refine standing_perform rewrite request ?_ taken
    rintro rfl
    cases goesOn

theorem act_fault {action : Action} (goesOn : action.ends = false) :
    (rewrite.act action).fault = rewrite.fault.or (rewrite.trouble action) := by
  cases action with
  | own event =>
    refine fault_step rewrite event ?_
    rintro rfl
    cases goesOn
  | request request =>
    refine fault_perform rewrite request ?_
    rintro rfl
    cases goesOn

/-- A run that does not end the method has the fault of the first action that has one. -/
theorem run_fault : ∀ (actions : List Action) (rewrite : MethodRewrite),
    (∀ action ∈ actions, action.ends = false) →
    (actions.foldl act rewrite).fault = rewrite.fault.or (rewrite.firstTrouble actions)
  | [], rewrite, _ => Option.or_none.symm
  | action :: rest, rewrite, goesOn => by
    have one := act_fault rewrite (goesOn action List.mem_cons_self)
    have others := run_fault rest (rewrite.act action) fun other among =>
      goesOn other (List.mem_cons_of_mem _ among)
    rw [List.foldl_cons, others, one, firstTrouble, Option.or_assoc]

/-- What comes into the method and whether it has code can be told by the actions alone. -/
theorem run_standing : ∀ (actions : List Action) (rewrite : MethodRewrite),
    (∀ action ∈ actions, action.ends = false) → rewrite.ledger.phase = .open →
    (actions.foldl act rewrite).standing =
      { rewrite.standing with
        hasCode := rewrite.hasCode || actions.any Action.tellsCode
        injected := rewrite.injected || actions.any Action.marks }
  | [], rewrite, _, _ => by simp [standing]
  | action :: rest, rewrite, goesOn, taken => by
    have one := act_standing rewrite (goesOn action List.mem_cons_self) taken
    have phase : (rewrite.act action).ledger.phase = .open :=
      (congrArg Standing.phase one).trans taken
    have hasCode : (rewrite.act action).hasCode = (rewrite.hasCode || action.tellsCode) :=
      congrArg Standing.hasCode one
    have injected : (rewrite.act action).injected = (rewrite.injected || action.marks) :=
      congrArg Standing.injected one
    have others := run_standing rest (rewrite.act action)
      (fun other among => goesOn other (List.mem_cons_of_mem _ among)) phase
    rw [List.foldl_cons, others, one, hasCode, injected]
    simp only [List.any_cons, Bool.or_assoc]

/-! ## The end -/

/-- What fails a method: what goes wrong first before its end, or with the writing of its new code
if anything was injected. -/
def failing (rewrite : MethodRewrite) (actions : List Action) : Option InstrumentError :=
  let last := actions.foldl act rewrite
  (rewrite.fault.or (rewrite.firstTrouble actions)).or <|
    if actions.any Action.marks then
      (cause? (last.serialize rewrite.target.pool).1).map InstrumentError.write
    else none

/-- The class after a method, by what failed the method and whether anything was injected. -/
inductive Leaves (target : RewriteTarget) (method : MethodContext) :
    Option InstrumentError → Bool → RewriteTarget → Prop
  | failed {cause : InstrumentError} {marked : Bool} {after : RewriteTarget}
      (rewritten : after.rewritten = target.rewritten)
      (failure : after.failure =
        some (target.failure.getD (method.name ++ method.descriptor, cause))) :
      Leaves target method (some cause) marked after
  | written {payload : Bytes} {after : RewriteTarget}
      (rewritten : after.rewritten = (method.index, payload) :: target.rewritten)
      (failure : after.failure = target.failure) : Leaves target method none true after
  | untouched {after : RewriteTarget} (rewritten : after.rewritten = target.rewritten)
      (failure : after.failure = target.failure) : Leaves target method none false after

/-- What comes to the class at the end of a method with code. -/
theorem close_target (coded : rewrite.hasCode = true) (taken : rewrite.ledger.phase = .open) :
    rewrite.close.target =
      if rewrite.fault.isNone && !rewrite.injected then rewrite.target else rewrite.settle := by
  have begun : rewrite.ledger.beginClose = .ok { rewrite.ledger with phase := .closing } := by
    unfold Ledger.beginClose Ledger.ensureOpen
    rw [if_pos taken]
    rfl
  unfold close
  rw [begun, coded]
  simp only [Bool.not_true, Bool.false_eq_true, if_false]
  split <;> rfl

/-- The class after a method is known by what it was before. -/
theorem Leaves.congr {before target after : RewriteTarget} {method : MethodContext}
    {failing : Option InstrumentError} {marked : Bool}
    (leaves : Leaves before method failing marked after)
    (rewritten : before.rewritten = target.rewritten) (failure : before.failure = target.failure) :
    Leaves target method failing marked after := by
  cases leaves with
  | failed kept wrong =>
    rw [rewritten] at kept
    rw [failure] at wrong
    exact .failed kept wrong
  | written more kept =>
    rw [rewritten] at more
    exact .written more (kept.trans failure)
  | untouched kept same => exact .untouched (kept.trans rewritten) (same.trans failure)

/-- An open method with code hands its fault to the class, or new code if anything was injected. -/
theorem close_leaves (coded : rewrite.hasCode = true) (taken : rewrite.ledger.phase = .open) :
    Leaves rewrite.target rewrite.method
      (rewrite.fault.or <|
        if rewrite.injected then
          (cause? (rewrite.serialize rewrite.target.pool).1).map InstrumentError.write
        else none)
      rewrite.injected rewrite.close.target := by
  rw [close_target rewrite coded taken]
  unfold settle
  simp only
  cases wrong : rewrite.fault with
  | some cause => exact .failed rfl rfl
  | none =>
    cases marked : rewrite.injected with
    | false => exact .untouched rfl rfl
    | true =>
      rcases written : rewrite.serialize rewrite.target.pool with ⟨cause | payload, pool⟩
      · exact .failed rfl rfl
      · exact .written rfl rfl

/-- **The end of a method with code finds out what went wrong first**, and writes new code if
nothing did and anything was injected. -/
theorem finish_leaves (target : RewriteTarget) (method : MethodContext) {actions : List Action}
    (coded : actions.any Action.tellsCode = true) (goesOn : ∀ action ∈ actions, action.ends = false) :
    Leaves target method ((start target method).failing actions) (actions.any Action.marks)
      (((actions.foldl act (start target method)).act (.own .finish)).target) := by
  have stands := run_standing actions (start target method) goesOn rfl
  have fault := run_fault actions (start target method) goesOn
  unfold failing
  simp only
  rw [← fault]
  generalize actions.foldl act (start target method) = last at stands fault
  have phase : last.ledger.phase = .open := congrArg Standing.phase stands
  have hasCode : last.hasCode = true :=
    (congrArg Standing.hasCode stands).trans ((Bool.false_or _).trans coded)
  have injected : last.injected = actions.any Action.marks :=
    (congrArg Standing.injected stands).trans (Bool.false_or _)
  have context : last.method = method := congrArg Standing.method stands
  have same : last.outline.target = { target with asked := [] } := congrArg Standing.target stands
  have rewritten := congrArg RewriteTarget.rewritten same
  have failure := congrArg RewriteTarget.failure same
  have pool := congrArg RewriteTarget.pool same
  simp only [outline] at rewritten failure pool
  have leaves := (close_leaves last hasCode phase).congr rewritten failure
  rw [injected, context, pool] at leaves
  exact leaves

end MethodRewrite

end ClassWeave
