/-
# ClassWeave.Proofs.PinnedFrames -- every frame stands where it was recorded

A method being rewritten keeps the labels at the end of its code (`Snippet.ending`) as a
group, and pins every frame to one of them, the frames of the method and those that
injected code asks for alike.  `MethodRewrite.recordings` are the frames that a run
records, each with the number of instructions that stand before it just then.

`MethodRewrite.frames_pinned` says what that comes to.  In assembled code a frame has
the offset of the first instruction written after it, or of the end.  A frame is granted
at labels at the end of the code only, a request that was granted changes nothing when
it is made again there, and one that is refused leaves nothing behind but its fault.
-/
import ClassWeave.Proofs.LedgerHistory
import ClassWeave.Proofs.SnippetNames
import Mathlib.Data.List.Induction

set_option autoImplicit false

namespace ClassWeave

/-! ## The labels at the end of code -/

namespace Snippet

/-- The labels that no instruction follows, the last one first. -/
def ending (code : Snippet) : List Label :=
  (code.reverse.takeWhile fun node => node.instruction?.isNone).filterMap Node.label?

variable (code : Snippet)

theorem ending_label (label : Label) : ending (code ++ [.label label]) = label :: ending code := by
  simp [ending, Node.instruction?, Node.label?]

theorem ending_line (number : UInt16) (start : Label) :
    ending (code ++ [.line number start]) = ending code := by
  simp only [ending, List.reverse_append, List.reverse_cons, List.reverse_nil, List.nil_append,
    List.singleton_append]
  rfl

theorem ending_insn (insn : Instruction) : ending (code ++ [.insn insn]) = [] := by
  simp [ending, Node.instruction?]

/-- A label at the end has all instructions before it. -/
theorem split_of_ending {code : Snippet} {label : Label} (among : label ∈ ending code) :
    ∃ early late, code = early ++ .label label :: late ∧
      instructions early = instructions code := by
  induction code using List.reverseRecOn with
  | nil => cases among
  | append_singleton code node ih =>
    -- A node that is no instruction leaves the labels before it at the end.
    have further (bare : node.instruction? = none) (old : label ∈ ending code) :
        ∃ early late, code ++ [node] = early ++ .label label :: late ∧
          instructions early = instructions (code ++ [node]) := by
      obtain ⟨early, late, rfl, same⟩ := ih old
      refine ⟨early, late ++ [node], by simp, same.trans ?_⟩
      simp only [instructions, List.filterMap_append, List.filterMap_cons_none bare,
        List.filterMap_nil, List.append_nil]
    cases node with
    | label other =>
      rw [ending_label] at among
      rcases List.mem_cons.1 among with rfl | old
      · exact ⟨code, [], rfl, by simp [instructions, Node.instruction?]⟩
      · exact further rfl old
    | line number start =>
      rw [ending_line] at among
      exact further rfl among
    | insn insn =>
      rw [ending_insn] at among
      cases among

end Snippet

/-! ## What a rewrite appends -/

namespace MethodRewrite

/-- The group are the labels at the end of the code. -/
def Grouped (rewrite : MethodRewrite) : Prop := rewrite.group = rewrite.body.code.ending

/-- Code is appended, and frames that are pinned to labels of the group. -/
structure Appends (before after : MethodRewrite) (pinned : List PinnedFrame) : Prop where
  code : before.body.code <+: after.body.code
  frames : after.body.frames.toList = before.body.frames.toList ++ pinned
  grouped : before.Grouped → after.Grouped
  here : ∀ frame ∈ pinned, frame.label ∈ after.group

namespace Appends

variable {before middle after outline : MethodRewrite} {pinned : List PinnedFrame}

theorem trans (first : Appends before middle []) (second : Appends middle after pinned) :
    Appends before after pinned where
  code := first.code.trans second.code
  frames := by rw [second.frames, first.frames, List.append_nil]
  grouped := second.grouped ∘ first.grouped
  here := second.here

theorem of_outline (same : after.outline = outline) (appends : Appends before outline pinned) :
    Appends before after pinned := by
  have body : after.body = outline.body := by
    rw [← same]
    rfl
  have group : after.group = outline.group := by
    rw [← same]
    rfl
  refine ⟨body ▸ appends.code, body ▸ appends.frames, fun known => ?_, group ▸ appends.here⟩
  rw [Grouped, group, body]
  exact appends.grouped known

/-- Neither the code nor the labels at its end change. -/
theorem quiet (code : after.body.code = before.body.code)
    (frames : after.body.frames = before.body.frames) (group : after.group = before.group) :
    Appends before after [] where
  code := code ▸ List.prefix_refl _
  frames := by rw [frames, List.append_nil]
  grouped known := by
    rw [Grouped, group, code]
    exact known
  here := List.forall_mem_nil _

end Appends

variable (rewrite : MethodRewrite)

theorem placeLabel_appends (label : Label) : Appends rewrite (rewrite.placeLabel label) [] := by
  refine .of_outline (rewrite.outline_placeLabel label) ⟨?_, ?_, fun known => ?_, nofun⟩
  · exact ⟨[.label label], (MethodBody.code_placeLabel _ _).symm⟩
  · exact (List.append_nil _).symm
  · show label :: rewrite.group = (rewrite.body.placeLabel label).code.ending
    rw [MethodBody.code_placeLabel, Snippet.ending_label, known]

theorem labelHere_appends : Appends rewrite rewrite.labelHere.2 [] := by
  cases group : rewrite.group with
  | cons label others =>
    rw [labelHere_of_group rewrite group]
    exact .quiet rfl rfl rfl
  | nil =>
    rw [labelHere_of_empty rewrite group]
    have handed : Appends rewrite rewrite.freshLabel.2 [] := .quiet rfl rfl rfl
    exact handed.trans (placeLabel_appends _ _)

theorem withFrame_appends {frame : PinnedFrame} (here : frame.label ∈ rewrite.group) :
    Appends rewrite (rewrite.withFrame frame) [frame] :=
  ⟨List.prefix_refl _, Array.toList_push .., id, List.forall_mem_singleton.2 here⟩

theorem originalFrame_appends (locals stack : List FrameType) :
    ∃ pinned, Appends rewrite (rewrite.originalFrame locals stack) pinned := by
  rcases rewrite.outline_originalFrame locals stack with ⟨_, same⟩ | ⟨_, frame, at_, same⟩
  · rw [same]
    exact ⟨[], .quiet rfl rfl rfl⟩
  · have here : frame.label ∈ rewrite.labelHere.2.outline.group := at_ ▸ rewrite.labelHere_mem
    have bare : Appends rewrite rewrite.labelHere.2.outline [] :=
      rewrite.labelHere_appends.trans (.quiet rfl rfl rfl)
    exact ⟨[frame], .of_outline same (bare.trans (withFrame_appends _ here))⟩

theorem putInstruction_appends (insn : Instruction) :
    Appends rewrite (rewrite.putInstruction insn) [] := by
  have code := (rewrite.putInstruction_gains insn).code
  refine ⟨⟨_, code.symm⟩, (List.append_nil _).symm, fun _ => ?_, nofun⟩
  rw [Grouped, code, Snippet.ending_insn]
  rfl

theorem instruction_appends (insn : Instruction) :
    Appends rewrite (rewrite.instruction insn) [] := by
  by_cases taken : rewrite.ledger.phase = .open
  · have placed : Appends rewrite (rewrite.position insn).2 [] := by
      unfold position
      split
      · exact .quiet rfl rfl rfl
      · split
        · exact rewrite.labelHere_appends
        · exact .quiet rfl rfl rfl
    have same : (rewrite.instruction insn).outline =
        ((rewrite.position insn).2.putInstruction insn).outline :=
      rewrite.outline_instruction insn taken
    have put := placed.trans (putInstruction_appends _ insn)
    exact .of_outline same (put.trans (.quiet rfl rfl rfl))
  · unfold instruction
    rw [if_pos taken]
    exact .quiet rfl rfl rfl

theorem close_appends : Appends rewrite rewrite.close [] := by
  unfold close
  split
  · exact .quiet rfl rfl rfl
  · split
    · exact .quiet rfl rfl rfl
    · simp only
      split <;> exact .quiet rfl rfl rfl

theorem step_appends (event : MethodEvent) :
    ∃ pinned, Appends rewrite (rewrite.step event) pinned := by
  cases event with
  | frame locals stack => exact rewrite.originalFrame_appends locals stack
  | label label => exact ⟨[], rewrite.placeLabel_appends label⟩
  | insn insn => exact ⟨[], rewrite.instruction_appends insn⟩
  | finish => exact ⟨[], rewrite.close_appends⟩
  | line number start =>
    refine ⟨[], ⟨⟨[.line number start], ?_⟩, (List.append_nil _).symm, fun known => ?_, nofun⟩⟩
    · simp [MethodRewrite.step, MethodBody.add, MethodBody.code]
    · have code : (rewrite.step (.line number start)).body.code =
          rewrite.body.code ++ [.line number start] := by
        simp [MethodRewrite.step, MethodBody.add, MethodBody.code]
      rw [Grouped, code, Snippet.ending_line]
      exact known
  | sizes | tryBlock | «variable» | maxs => exact ⟨[], .quiet rfl rfl rfl⟩

theorem askFrame_appends (label : Label) (wanted : FrameRequest) :
    ∃ pinned, Appends rewrite (rewrite.askFrame label wanted).2 pinned := by
  have asked := rewrite.outline_askFrame label wanted
  rcases rewrite.outline_requestFrame label wanted with
    same | same | ⟨ledger, frame, _, here, at_, same⟩
  · exact ⟨[], .of_outline (asked.trans same) (.quiet rfl rfl rfl)⟩
  · exact ⟨[], .of_outline (asked.trans same) (.quiet rfl rfl rfl)⟩
  · refine ⟨[frame], .of_outline (asked.trans same)
      (Appends.trans ?_ (withFrame_appends _ (at_ ▸ here)))⟩
    exact .quiet rfl rfl rfl

theorem act_appends (action : Action) : ∃ pinned, Appends rewrite (rewrite.act action) pinned := by
  have allocated (type : ValueType) : Appends rewrite (rewrite.allocate type).2 [] :=
    .of_outline (rewrite.outline_allocate type) (.quiet rfl rfl rfl)
  cases action with
  | own event => exact rewrite.step_appends event
  | request request =>
    cases request with
    | event event =>
      obtain ⟨pinned, appends⟩ := step_appends { rewrite with injected := true } event
      have marked : Appends rewrite { rewrite with injected := true } [] := .quiet rfl rfl rfl
      exact ⟨pinned, marked.trans appends⟩
    | label | fault => exact ⟨[], .quiet rfl rfl rfl⟩
    | slot type => exact ⟨[], allocated type⟩
    | store type =>
      refine ⟨[], ?_⟩
      show Appends rewrite (rewrite.storeNew type).2 []
      rw [storeNew_eq]
      split
      · have marked : Appends rewrite { (rewrite.allocate type).2 with injected := true } [] :=
          (allocated type).trans (.quiet rfl rfl rfl)
        exact marked.trans (instruction_appends _ _)
      · exact allocated type
    | handler block =>
      exact ⟨[], .of_outline (rewrite.outline_addHandler block) (.quiet rfl rfl rfl)⟩
    | frame label wanted => exact rewrite.askFrame_appends label wanted

/-! ## Over a run -/

/-- The frames that an action records, and how many instructions stand before them. -/
def recordings (rewrite : MethodRewrite) (action : Action) : List (PinnedFrame × Nat) :=
  let after := rewrite.act action
  (after.body.frames.toList.drop rewrite.body.frames.size).map fun frame =>
    (frame, after.body.code.instructions.length)

/-- What holds of the frames that were recorded on the way: they are those that there are, and each
stands at a label that has all instructions before it that were there. -/
structure Recorded (before after : MethodRewrite) (recorded : List (PinnedFrame × Nat)) : Prop where
  code : before.body.code <+: after.body.code
  frames : after.body.frames.toList = before.body.frames.toList ++ recorded.map Prod.fst
  grouped : after.Grouped
  stands : ∀ row ∈ recorded, ∃ early late,
    after.body.code = early ++ .label row.1.label :: late ∧
      (Snippet.instructions early).length = row.2

theorem act_recorded (grouped : rewrite.Grouped) (action : Action) :
    Recorded rewrite (rewrite.act action) (rewrite.recordings action) := by
  obtain ⟨pinned, appends⟩ := rewrite.act_appends action
  have recorded : rewrite.recordings action =
      pinned.map fun frame => (frame, (rewrite.act action).body.code.instructions.length) := by
    simp only [recordings]
    rw [appends.frames, ← Array.length_toList, List.drop_left]
  have after := appends.grouped grouped
  refine ⟨appends.code, ?_, after, fun row among => ?_⟩
  · rw [recorded, List.map_map, appends.frames]
    exact congrArg _ (List.map_id _).symm
  · rw [recorded] at among
    obtain ⟨frame, known, rfl⟩ := List.mem_map.1 among
    obtain ⟨early, late, split, same⟩ := Snippet.split_of_ending (after ▸ appends.here frame known)
    exact ⟨early, late, split, congrArg List.length same⟩

theorem Recorded.trans {before middle after : MethodRewrite} {first second : List (PinnedFrame × Nat)}
    (early : Recorded before middle first) (late : Recorded middle after second) :
    Recorded before after (first ++ second) where
  code := early.code.trans late.code
  frames := by rw [late.frames, early.frames, List.map_append, List.append_assoc]
  grouped := late.grouped
  stands row among := by
    rcases List.mem_append.1 among with old | new
    · obtain ⟨ahead, behind, split, same⟩ := early.stands row old
      obtain ⟨more, grown⟩ := late.code
      exact ⟨ahead, behind ++ more, by simp [← grown, split], same⟩
    · exact late.stands row new

theorem run_recorded : ∀ (actions : List Action) (rewrite : MethodRewrite), rewrite.Grouped →
    Recorded rewrite (actions.foldl act rewrite) (gather recordings rewrite actions)
  | [], _, grouped => ⟨List.prefix_refl _, (List.append_nil _).symm, grouped, nofun⟩
  | action :: rest, rewrite, grouped =>
    have first := rewrite.act_recorded grouped action
    first.trans (run_recorded rest (rewrite.act action) first.grouped)

theorem start_grouped (target : RewriteTarget) (method : MethodContext) :
    (start target method).Grouped := rfl

/-! ## Requests that are granted, and that are refused -/

/-- Why a frame is not granted. -/
inductive Refuses (rewrite : MethodRewrite) (label : Label) (wanted : FrameRequest) :
    InstrumentError → Prop
  | closed (shut : rewrite.ledger.phase ≠ .open) :
    Refuses rewrite label wanted (.methodClosed rewrite.ledger.phase)
  | elsewhere (taken : rewrite.ledger.phase = .open) (away : label ∉ rewrite.body.code.ending) :
    Refuses rewrite label wanted (.labelNotPlaced label)
  | other (taken : rewrite.ledger.phase = .open) (here : label ∈ rewrite.body.code.ending)
    {existing : FrameRequest} (known : rewrite.ledger.requests[label]? = some existing)
    (differs : existing ≠ wanted) :
    Refuses rewrite label wanted (.frameConflict label existing wanted)

/-- The answers that a request for a frame can get. -/
inductive Answers (rewrite : MethodRewrite) (label : Label) (wanted : FrameRequest) :
    Except InstrumentError Unit × MethodRewrite → Prop
  /-- The frame is recorded. -/
  | granted (here : label ∈ rewrite.body.code.ending) {ledger : Ledger}
    (asked : rewrite.ledger.request label wanted = .ok (true, ledger)) :
    Answers rewrite label wanted
      (.ok (), grantFrame { rewrite with injected := true, ledger := ledger } label wanted)
  /-- The frame was recorded before. -/
  | again (here : label ∈ rewrite.body.code.ending) (taken : rewrite.ledger.phase = .open)
    (known : rewrite.ledger.requests[label]? = some wanted) :
    Answers rewrite label wanted (.ok (), { rewrite with injected := true })
  | refused {cause : InstrumentError} (why : rewrite.Refuses label wanted cause)
    (injected : Bool) : Answers rewrite label wanted
      (.error cause, fail { rewrite with injected := injected } cause)

theorem askFrame_answers {rewrite : MethodRewrite} (grouped : rewrite.Grouped) (label : Label)
    (wanted : FrameRequest) : rewrite.Answers label wanted (rewrite.askFrame label wanted) := by
  unfold askFrame requestFrame
  by_cases taken : rewrite.ledger.phase = .open
  · have opened : rewrite.ledger.ensureOpen = .ok () := Ledger.ensureOpen_eq_ok.2 taken
    -- The labels of the group are those that end the code, which is what a place in the code means.
    have contains : rewrite.group.contains label = true ↔ label ∈ rewrite.body.code.ending := by
      rw [List.contains_iff_mem, grouped]
    cases contained : rewrite.group.contains label with
    | false =>
      have away : label ∉ rewrite.body.code.ending := fun here => by
        rw [contains.2 here] at contained
        cases contained
      simp only [opened, contained]
      exact .refused (.elsewhere taken away) true
    | true =>
      have here : label ∈ rewrite.body.code.ending := contains.1 contained
      have answer := Ledger.request_of_open taken label wanted
      simp only [opened, contained, Bool.not_true, Bool.false_eq_true, if_false]
      cases known : rewrite.ledger.requests[label]? with
      | none =>
        rw [known] at answer
        rw [answer]
        exact .granted here answer
      | some existing =>
        rw [known] at answer
        by_cases same : existing = wanted
        · simp only [if_pos same] at answer
          rw [answer]
          exact .again here taken (same ▸ known)
        · simp only [if_neg same] at answer
          rw [answer]
          exact .refused (.other taken here known same) true
  · rw [Ledger.ensureOpen_of_closed taken]
    exact .refused (.closed taken) rewrite.injected

/-- A frame that is granted is booked. -/
theorem booked_of_granted {rewrite : MethodRewrite} (grouped : rewrite.Grouped) {label : Label}
    {wanted : FrameRequest} (granted : (rewrite.askFrame label wanted).1 = .ok ()) :
    (rewrite.askFrame label wanted).2.ledger.requests[label]? = some wanted := by
  have answers := askFrame_answers grouped label wanted
  generalize rewrite.askFrame label wanted = answer at answers granted
  cases answers with
  | @granted _ ledger asked =>
    obtain ⟨frame, _, same⟩ := outline_grantFrame _ label wanted
    refine (congrArg (fun rewrite => rewrite.ledger.requests[label]?) same).trans ?_
    show ledger.requests[label]? = some wanted
    obtain ⟨_, ⟨_, _, rfl⟩ | ⟨_, old, _⟩⟩ := Ledger.request_eq_ok.1 asked
    · exact Std.TreeMap.getElem?_insert_self
    · cases old
  | again here taken known => exact known
  | refused => cases granted

/-- A request that was granted changes nothing when it is made again at the same place. -/
theorem askFrame_again {rewrite : MethodRewrite} (grouped : rewrite.Grouped) {label : Label}
    {wanted : FrameRequest} (granted : (rewrite.askFrame label wanted).1 = .ok ())
    (more : List Action) :
    let later := more.foldl act (rewrite.askFrame label wanted).2
    later.ledger.phase = .open → label ∈ later.body.code.ending →
      later.askFrame label wanted = (.ok (), { later with injected := true }) := by
  intro later taken here
  have same : later.Grouped :=
    (run_recorded (.request (.frame label wanted) :: more) rewrite grouped).grouped
  have leads : (rewrite.askFrame label wanted).2.ledger.Leads later.ledger := by
    rw [ledger_run]
    exact Ledger.foldl_leads _ _
  -- Whatever was done in between, the ledger still has the first request for the label.
  have known : later.ledger.requests[label]? = some wanted :=
    leads.requests label wanted (booked_of_granted grouped granted)
  have answers := askFrame_answers same label wanted
  generalize later.askFrame label wanted = answer at answers
  cases answers with
  | granted _ asked =>
    obtain ⟨_, ⟨unknown, _⟩ | ⟨_, old, _⟩⟩ := Ledger.request_eq_ok.1 asked
    · rw [known] at unknown
      cases unknown
    · cases old
  | again => rfl
  | refused why =>
    cases why with
    | closed shut => exact absurd taken shut
    | elsewhere _ away => exact absurd here away
    | other _ _ existing differs =>
      rw [known] at existing
      exact absurd (Option.some.inj existing).symm differs

/-- What can be relied on with the frames of a method, after any run. -/
structure FramesPinned (start : MethodRewrite) (actions : List Action) (reached : MethodRewrite) :
    Prop where
  /-- All frames that were recorded are there, in their order, and no others. -/
  recorded : reached.body.frames.toList = (gather recordings start actions).map Prod.fst
  /-- The frame stands before the first instruction that is written after it is recorded. -/
  measured : reached.body.code.PlacesOnce →
    ∀ frame number, (frame, number) ∈ gather recordings start actions →
    ∀ (pool after : ConstantPool) layout assembled, pool.Sound →
      reached.body.code.foldlM Layout.add Layout.empty pool = (.ok layout, after) →
      assemble reached.body.code pool = (.ok assembled, after) →
      ∃ offset, assembled.offsetOf frame.label = .ok offset ∧
        (layout.offsets ++ [assembled.code.length])[number]? = some offset
  placed : ∀ label wanted, (reached.askFrame label wanted).1 = .ok () →
    label ∈ reached.body.code.ending
  repeated : ∀ label wanted, (reached.askFrame label wanted).1 = .ok () → ∀ more : List Action,
    let later := more.foldl act (reached.askFrame label wanted).2
    later.ledger.phase = .open → label ∈ later.body.code.ending →
      later.askFrame label wanted = (.ok (), { later with injected := true })
  refused : ∀ label wanted cause, (reached.askFrame label wanted).1 = .error cause →
    reached.Refuses label wanted cause ∧ ∃ injected, (reached.askFrame label wanted).2 =
      { reached with injected := injected, fault := some (reached.fault.getD cause) }

/-- **Every frame stands where it was recorded**, whatever is done to a method, and a request for
one records it, or was granted before, or leaves everything but the fault as it was. -/
theorem frames_pinned (target : RewriteTarget) (method : MethodContext) (actions : List Action) :
    FramesPinned (start target method) actions (actions.foldl act (start target method)) := by
  have records := run_recorded actions (start target method) (start_grouped target method)
  refine ⟨records.frames, ?_, fun label wanted granted => ?_,
    fun label wanted granted => askFrame_again records.grouped granted,
    fun label wanted cause refused => ?_⟩
  · intro once frame number among pool after layout assembled sound laid done
    obtain ⟨layout', laid', assembles⟩ := assemble_eq_ok sound done
    rw [laid] at laid'
    cases laid'
    -- A frame stands behind the instructions counted when it was recorded; so does its label.
    obtain ⟨early, late, split, same⟩ := records.stands _ among
    rw [split] at assembles once
    have place := assembles.offset_of_label (Snippet.not_mem_of_count (once frame.label) rfl)
    rwa [same] at place
  · have answers := askFrame_answers records.grouped label wanted
    generalize MethodRewrite.askFrame _ label wanted = answer at answers granted
    cases answers with
    | granted here | again here => exact here
    | refused => cases granted
  · have answers := askFrame_answers records.grouped label wanted
    generalize MethodRewrite.askFrame _ label wanted = answer at answers refused
    cases answers with
    | granted | again => cases refused
    | refused why injected =>
      cases refused
      exact ⟨why, injected, rfl⟩

end MethodRewrite

/-! ## A frame that is asked for, and one of the method -/

namespace Sample

def untold : MethodRewrite :=
  .start (.start "A" 52 (ConstantPool.ofEntries #[]) Hierarchy.flat Options.standard)
    ⟨0, 8, "m", "()V"⟩

/-- Injected code asks for a frame before the first instruction, the method has one before the
second. -/
def twoFrames : List Action :=
  [.own (.sizes 0 0), .request .label, .request (.event (.label ⟨0x10000⟩)),
    .request (.frame ⟨0x10000⟩ .same), .own (.insn (.simple Opcode.nop)), .own (.frame [] []),
    .own (.insn (.simple Opcode.voidReturn))]

def framed : MethodRewrite := twoFrames.foldl MethodRewrite.act untold

end Sample

/-- The two frames stand before the two instructions, each at a label of its own. -/
theorem MethodRewrite.frames_pinned_both :
    Sample.framed.body.code.PlacesOnce ∧
    Sample.framed.body.frames.toList.map PinnedFrame.label = [⟨0x10000⟩, ⟨0x10001⟩] ∧
    ∃ (after : ConstantPool) (layout : Layout) (assembled : AssembledCode),
      assemble Sample.framed.body.code (ConstantPool.ofEntries #[]) = (.ok assembled, after) ∧
      ∀ frame number, (frame, number) ∈ gather recordings Sample.untold Sample.twoFrames →
        ∃ offset, assembled.offsetOf frame.label = .ok offset ∧
          (layout.offsets ++ [assembled.code.length])[number]? = some offset := by
  have pinned := frames_pinned Sample.untold.target Sample.untold.method Sample.twoFrames
  have code : Sample.framed.body.code = [.label ⟨0x10000⟩, .insn (.simple Opcode.nop),
      .label ⟨0x10001⟩, .insn (.simple Opcode.voidReturn)] := by decide +kernel
  have once : Sample.framed.body.code.PlacesOnce := by
    intro label
    rw [code]
    simp only [List.count_cons, List.count_nil]
    grind
  have runs : (assemble Sample.framed.body.code (ConstantPool.ofEntries #[])).1.toOption.isSome =
      true := by decide +kernel
  rcases done : assemble Sample.framed.body.code (ConstantPool.ofEntries #[]) with
    ⟨_ | assembled, after⟩
  · rw [done] at runs
    cases runs
  · have sound := ConstantPool.ofEntries_sound #[]
    obtain ⟨layout, laid, _⟩ := assemble_eq_ok sound done
    exact ⟨once, by decide +kernel, after, layout, assembled, rfl, fun frame number among =>
      pinned.measured once frame number among _ after layout assembled sound laid done⟩

end ClassWeave
