/-
# ClassWeave.Proofs.FrameKeeping -- what is recorded around a frame of a method

When a frame of a method has been recorded, injected code may still come before the next
instruction.  It can have frames recorded at the same place, but up to the instruction
the simulation stands still, so they all say what the first one says
(`MethodRewrite.Calm`).  The instruction moves on: whatever is recorded behind it is
pinned to a label behind it (`MethodRewrite.Moved`), and stays so to the end of the
method (`Weaves.moved`).
-/
import ClassWeave.Proofs.TameCode

set_option autoImplicit false

namespace ClassWeave

namespace MethodRewrite

/-! ## Standing still -/

/-- A label that nothing is known of changes nothing when control falls through to it. -/
theorem placeLabel_still {rewrite : MethodRewrite} {label : Label}
    (reachable : rewrite.reachable = true) (unknown : ¬ rewrite.Awaits label) :
    (rewrite.placeLabel label).current = rewrite.current ∧
      (rewrite.placeLabel label).reachable = true := by
  have unsaved : rewrite.saved[label]? = none := by
    refine Std.TreeMap.getElem?_eq_none fun known => unknown (.inl ?_)
    exact Std.TreeMap.contains_iff_mem.2 known
  have free : rewrite.isHandler label = false := by
    rw [Bool.eq_false_iff]
    exact fun known => unknown (.inr known)
  have arriving : rewrite.arriving label = some rewrite.current := by
    rw [arriving, free, if_neg Bool.false_ne_true, incoming, reachable, unsaved]
  unfold placeLabel
  simp only [arriving]
  exact ⟨rfl, rfl⟩

/-- The frame says what the rewrite knows now. -/
def Records (rewrite : MethodRewrite) (frame : PinnedFrame) : Prop :=
  frame.locals = compactLocals rewrite.current.locals ∧
    frame.stack = rewrite.current.stack.reverse

/-- A frame that keeps the stack, at a label that handles nothing. -/
theorem grantFrame_still {rewrite : MethodRewrite} {label : Label}
    (free : rewrite.isHandler label = false) :
    (rewrite.grantFrame label .same).current = rewrite.current ∧
      (rewrite.grantFrame label .same).reachable = true ∧
      (rewrite.grantFrame label .same).body = (rewrite.withFrame
        ⟨label, compactLocals rewrite.current.locals, rewrite.current.stack.reverse⟩).body ∧
      (rewrite.grantFrame label .same).ledger = rewrite.ledger ∧
      (rewrite.grantFrame label .same).links = rewrite.links := by
  have frame : rewrite.requestedFrame label .same = rewrite.current := by
    rw [requestedFrame, free, if_neg Bool.false_ne_true]
    rfl
  have ended (questions : List (String × String)) :
      (rewrite.ask questions).endPrefix.body = rewrite.body ∧
        (rewrite.ask questions).endPrefix.ledger = rewrite.ledger ∧
        (rewrite.ask questions).endPrefix.links = rewrite.links := by
    unfold endPrefix
    split <;> exact ⟨rfl, rfl, rfl⟩
  simp only [grantFrame, frame]
  generalize (if rewrite.isHandler label then rewrite.handlerQuestions label else []) = questions
  -- Where the prefix ends is a case split: under a name, the updates around it compute.
  obtain ⟨body, ledger, links⟩ := ended questions
  generalize (rewrite.ask questions).endPrefix = still at body ledger links ⊢
  refine ⟨rfl, rfl, ?_, ledger, links⟩
  show ({ still with current := rewrite.current }.recordFrame label).body = _
  rw [recordFrame, body]
  rfl

/-- The rewrite has gone on from `top` without an instruction: whatever was recorded says what was
known at `top`, and that is known still. -/
structure Calm (top rewrite : MethodRewrite) : Prop where
  code : ∃ nodes, rewrite.body.code = top.body.code ++ nodes ∧ ∀ insn, .insn insn ∉ nodes
  frames : ∃ more, rewrite.body.frames.toList = top.body.frames.toList ++ more ∧
    ∀ frame ∈ more, top.Records frame
  current : rewrite.current = top.current
  reachable : rewrite.reachable = true
  awaits : ∀ label, rewrite.Awaits label → top.Awaits label
  phase : rewrite.ledger.phase = .open

/-- The rewrite has gone on from `top` by an instruction at least: what was recorded before the
first one says what was known at `top`, and the rest is pinned behind it. -/
structure Moved (top rewrite : MethodRewrite) : Prop where
  split : ∃ early insn late first rest,
    rewrite.body.code = top.body.code ++ (early ++ .insn insn :: late) ∧
    rewrite.body.frames.toList = top.body.frames.toList ++ (first ++ rest) ∧
    (∀ frame ∈ first, top.Records frame) ∧ (∀ frame ∈ rest, .label frame.label ∈ late) ∧
    ∀ label ∈ rewrite.group, .label label ∈ late
  phase : rewrite.ledger.phase = .open

variable {top rewrite after : MethodRewrite}

theorem Calm.refl (reachable : top.reachable = true) (taken : top.ledger.phase = .open) :
    Calm top top :=
  ⟨⟨[], (List.append_nil _).symm, fun _ => List.not_mem_nil⟩,
    ⟨[], (List.append_nil _).symm, List.forall_mem_nil _⟩, rfl, reachable, fun _ => id, taken⟩

/-- Something that writes no code and leaves the frame alone. -/
theorem Calm.quiet (calm : Calm top rewrite) (body : after.body = rewrite.body)
    (current : after.current = rewrite.current) (reachable : after.reachable = rewrite.reachable)
    (links : after.links = rewrite.links) (phase : after.ledger.phase = rewrite.ledger.phase) :
    Calm top after := by
  refine ⟨?_, ?_, current.trans calm.current, reachable.trans calm.reachable, ?_,
    phase.trans calm.phase⟩
  · rw [body]
    exact calm.code
  · rw [body]
    exact calm.frames
  · exact fun label awaits => calm.awaits label (awaits.congr links)

/-- A label that nothing was known of at `top`. -/
theorem Calm.placeLabel (calm : Calm top rewrite) {label : Label}
    (unknown : ¬ top.Awaits label) : Calm top (rewrite.placeLabel label) := by
  obtain ⟨nodes, code, none_⟩ := calm.code
  obtain ⟨current, reachable⟩ := placeLabel_still calm.reachable
    fun known => unknown (calm.awaits label known)
  have body : (rewrite.placeLabel label).body = rewrite.body.placeLabel label :=
    show (rewrite.placeLabel label).outline.body = _ by rw [outline_placeLabel]
  have ledger : (rewrite.placeLabel label).ledger = rewrite.ledger :=
    show (rewrite.placeLabel label).outline.ledger = _ by rw [outline_placeLabel]; rfl
  refine ⟨⟨nodes ++ [.label label], ?_, ?_⟩, ?_, current.trans calm.current, reachable, ?_, ?_⟩
  · rw [body, ← List.append_assoc, ← code]
    simp [MethodBody.placeLabel, MethodBody.code]
  · intro insn among
    rcases List.mem_append.1 among with old | new
    · exact none_ insn old
    · cases List.mem_singleton.1 new
  · rw [body]
    exact calm.frames
  · exact fun other awaits => calm.awaits other (Awaits.of_placeLabel rewrite awaits)
  · rw [ledger]
    exact calm.phase

/-- A frame asked for where nothing has moved. -/
theorem Calm.requestFrame (calm : Calm top rewrite) {label : Label}
    (unknown : ¬ top.Awaits label) : Calm top (rewrite.requestFrame label .same).2 := by
  have free (other : MethodRewrite) (links : other.links = rewrite.links) :
      other.isHandler label = false := by
    rw [Bool.eq_false_iff]
    exact fun known =>
      unknown (calm.awaits label (Awaits.congr links (.inr known)))
  unfold MethodRewrite.requestFrame
  split
  · exact calm
  · simp only
    split
    · exact calm.quiet rfl rfl rfl rfl rfl
    · split
      · exact calm.quiet rfl rfl rfl rfl rfl
      · exact calm.quiet rfl rfl rfl rfl rfl
      · rename_i ledger asked
        -- The label is no handler, so the frame granted at it is the one that holds here anyway.
        obtain ⟨current, reachable, body, kept, links⟩ := grantFrame_still
          (free { rewrite with injected := true, ledger := ledger } rfl)
        obtain ⟨more, recorded, same⟩ := calm.frames
        refine ⟨?_, ⟨more ++ [⟨label, compactLocals top.current.locals,
          top.current.stack.reverse⟩], ?_, ?_⟩, current.trans calm.current, reachable, ?_, ?_⟩
        · rw [body]
          exact calm.code
        · rw [body, ← List.append_assoc, ← recorded, ← calm.current]
          exact Array.toList_push
        · intro frame among
          rcases List.mem_append.1 among with old | new
          · exact same frame old
          · rw [List.mem_singleton.1 new]
            exact ⟨rfl, rfl⟩
        · exact fun other awaits => calm.awaits other (awaits.congr links)
        · rw [kept]
          exact (Ledger.phase_of_request asked).trans calm.phase

/-! ## Moving on -/

theorem frames_labelHere : rewrite.labelHere.2.body.frames = rewrite.body.frames := by
  cases group : rewrite.group with
  | cons label others => rw [labelHere_of_group rewrite group]
  | nil =>
    rw [labelHere_of_empty rewrite group]
    show (rewrite.freshLabel.2.placeLabel rewrite.freshLabel.1).outline.body.frames = _
    rw [outline_placeLabel]
    rfl

theorem frames_position (insn : Instruction) :
    (rewrite.position insn).2.body.frames = rewrite.body.frames := by
  unfold position
  split
  · rfl
  · split
    · exact frames_labelHere
    · rfl

/-- An instruction that is taken is the last thing in the code, and no label stands behind it. -/
theorem Calm.instruction (calm : Calm top rewrite) (insn : Instruction) :
    Moved top (rewrite.instruction insn) := by
  obtain ⟨nodes, code, _⟩ := calm.code
  obtain ⟨more, recorded, same⟩ := calm.frames
  have outline := rewrite.outline_instruction insn calm.phase
  obtain ⟨marker, _, placed⟩ := rewrite.position_gains insn
  -- The outline knows nothing of the simulated frame, but all of body, group and ledger.
  have body : (rewrite.instruction insn).body =
      ((rewrite.position insn).2.putInstruction insn).body :=
    show (rewrite.instruction insn).outline.body = _ by rw [outline]; rfl
  have group : (rewrite.instruction insn).group = [] :=
    show (rewrite.instruction insn).outline.group = _ by rw [outline]; rfl
  have ledger : (rewrite.instruction insn).ledger = (rewrite.position insn).2.ledger :=
    show (rewrite.instruction insn).outline.ledger = _ by rw [outline]; rfl
  have written : (rewrite.instruction insn).body.code =
      rewrite.body.code ++ (marker ++ [.insn insn.normal]) := by
    have put := ((rewrite.position insn).2.putInstruction_gains insn).code
    rw [body, put, placed.code, List.append_assoc]
  have frames : (rewrite.instruction insn).body.frames = rewrite.body.frames := by
    rw [body]
    exact frames_position insn
  refine ⟨⟨nodes ++ marker, insn.normal, [], more, [], ?_, ?_, same, List.forall_mem_nil _, ?_⟩, ?_⟩
  · rw [written, code]
    simp only [List.append_assoc]
  · rw [frames, recorded, List.append_nil]
  · rw [group]
    exact List.forall_mem_nil _
  · rw [ledger, placed.phase]
    exact calm.phase

theorem Moved.gains (moved : Moved top rewrite) {nodes : List Node} {blocks : List TryBlock}
    (gains : Gains rewrite after nodes blocks) : Moved top after := by
  obtain ⟨early, insn, late, first, rest, code, frames, records, behind, group⟩ := moved.split
  obtain ⟨pinned, recorded, labels⟩ := gains.frames
  -- Labels that were here are behind the instruction, and so is all that has been written since.
  have here {label : Label} (known : label ∈ rewrite.group ∨ .label label ∈ nodes) :
      .label label ∈ late ++ nodes := by
    rw [List.mem_append]
    exact known.imp_left (group label)
  refine ⟨⟨early, insn, late ++ nodes, first, rest ++ pinned, ?_, ?_, records, ?_, ?_⟩,
    gains.phase.trans moved.phase⟩
  · rw [gains.code, code]
    simp only [List.append_assoc, List.cons_append]
  · rw [recorded, frames]
    simp only [List.append_assoc]
  · intro frame among
    rcases List.mem_append.1 among with old | new
    · exact List.mem_append_left _ (behind frame old)
    · exact here (labels frame new)
  · exact fun label among => here (gains.group label among)

/-- A request of tame code, between two instructions or ending the space between them. -/
theorem Calm.perform (calm : Calm top rewrite) (aware : top.Aware) {insn : Instruction}
    {request : Injection.Request} (fine : request.Tame (.insn insn) top rewrite) :
    Calm top (rewrite.perform request) ∨ Moved top (rewrite.perform request) := by
  -- Labels made since the instruction are numbered above all those that the method waits for.
  have unknown {label : Label} (made : label.MadeSince top rewrite) : ¬ top.Awaits label := by
    intro known
    have bound := aware label known
    have low := made.1
    omega
  have allocated (type : ValueType) : Calm top (rewrite.allocate type).2 := by
    unfold allocate
    simp only
    split
    · exact calm.quiet rfl rfl rfl rfl (Ledger.phase_of_allocate ‹_›)
    · exact calm.quiet rfl rfl rfl rfl rfl
  have marked : Calm top { rewrite with injected := true } := calm.quiet rfl rfl rfl rfl rfl
  cases request with
  | label => exact .inl (calm.quiet rfl rfl rfl rfl rfl)
  | event event =>
    cases event with
    | label label => exact .inl (marked.placeLabel (unknown fine))
    | line number start =>
      obtain ⟨nodes, code, none_⟩ := calm.code
      refine .inl ⟨⟨nodes ++ [.line number start], ?_, ?_⟩, calm.frames, calm.current,
        calm.reachable, calm.awaits, calm.phase⟩
      · rw [← List.append_assoc, ← code]
        simp [MethodRewrite.perform, inject, step, MethodBody.add, MethodBody.code]
      · intro other among
        rcases List.mem_append.1 among with old | new
        · exact none_ other old
        · cases List.mem_singleton.1 new
    | insn own => exact .inr (marked.instruction own)
    | sizes | frame | tryBlock | «variable» | maxs | finish => exact fine.elim
  | slot type => exact .inl (allocated type)
  | store type =>
    show Calm top (rewrite.storeNew type).2 ∨ Moved top (rewrite.storeNew type).2
    rw [storeNew_eq]
    split
    · have counted : Calm top { (rewrite.allocate type).2 with injected := true } :=
        (allocated type).quiet rfl rfl rfl rfl rfl
      exact .inr (counted.instruction _)
    · exact .inl (allocated type)
  | handler block =>
    obtain ⟨⟨_, _, other⟩, _⟩ := fine
    cases other
  | frame label wanted =>
    obtain ⟨made, rfl | ⟨_, _, other⟩⟩ := fine
    · left
      have asked := calm.requestFrame (unknown made)
      show Calm top (keepFault (rewrite.requestFrame label .same)).2
      rcases granted : rewrite.requestFrame label .same with ⟨_ | _, after⟩
      all_goals rw [granted] at asked
      · exact asked.quiet rfl rfl rfl rfl rfl
      · exact asked
    · cases other
  | fault cause => exact .inl (calm.quiet rfl rfl rfl rfl rfl)

end MethodRewrite

open MethodRewrite

/-! ## Runs -/

theorem Requests.moved {came : MethodEvent} {start top before after : MethodRewrite}
    {requests : List Injection.Request} (run : Requests (harmless came start) before requests after)
    (moved : Moved top before) : Moved top after := by
  obtain ⟨_, _, strand, _⟩ := run.harmless_strand moved.phase
  exact moved.gains strand.gains

theorem Requests.calm {insn : Instruction} {top before after : MethodRewrite}
    {requests : List Injection.Request} (run : Requests (tame (.insn insn) top) before requests after)
    (aware : top.Aware) (calm : Calm top before) : Calm top after ∨ Moved top after := by
  induction run with
  | done => exact .inl calm
  | more permitted rest ih =>
    rcases calm.perform aware permitted with still | moved
    · exact ih still
    · have onwards : Requests (harmless (.insn insn) top) _ _ _ :=
        rest.mono fun _ _ fine => fine.harmless
      exact .inr (onwards.moved moved)

/-- From a frame on to the end of the method, the next instruction being the first of many events. -/
theorem Weaves.moved {insn : Instruction} {events : List MethodEvent} {top after : MethodRewrite}
    {actions : List Action} (run : Weaves tame (.insn insn :: events) top actions after)
    (goesOn : ∀ event ∈ events, event ≠ .finish) (aware : top.Aware)
    (reachable : top.reachable = true) (taken : top.ledger.phase = .open) : Moved top after := by
  cases run with
  | @event _ _ _ reached left _ early late rest into out others =>
    have passed : Moved top (reached.step (.insn insn)) := by
      rcases into.calm aware (.refl reachable taken) with calm | moved
      · exact calm.instruction insn
      · obtain ⟨_, _, _, gains⟩ := reached.step_gains (.insn insn) (by simp) moved.phase
        exact moved.gains gains
    have quiet : Requests (harmless (.insn insn) top) (reached.step (.insn insn)) late left :=
      out.mono fun _ _ fine => fine.harmless
    have gone : Moved top left := quiet.moved passed
    obtain ⟨_, _, strand, _⟩ := others.harmless_of_tame.strand (fun _ _ => trivial)
      (fun event among => ⟨goesOn event among, fun _ _ _ _ _ => trivial⟩) gone.phase
    exact gone.gains strand.gains

end ClassWeave
