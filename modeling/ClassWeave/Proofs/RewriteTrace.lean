/-
# ClassWeave.Proofs.RewriteTrace -- which nodes of the new code came from where

`MethodRewrite.trace` runs actions and marks every node they write: `own` if an event of
the method wrote it, `injected` if a request did.  Without the marks it is the code of
the new body, so nothing is lost and nothing else gets in (`Strand`).

Injected code is `harmless` if it places no label that could stand for an offset and
does not end the method; a method that was ended takes no more instructions.  In a run
of harmless code the own nodes of the trace are the method told in order: in front of
each instruction its label, and between the two no instruction but injected ones
(`Woven`).
-/
import ClassWeave.ClassFile.Telling
import ClassWeave.Proofs.RewriteActions

set_option autoImplicit false

namespace ClassWeave

/-! ## The ledger stays as open as it is -/

namespace Ledger

variable {ledger after : Ledger}

theorem phase_of_allocate {type : ValueType} {slot : UInt16}
    (given : ledger.allocate type = .ok (slot, after)) : after.phase = ledger.phase := by
  obtain ⟨_, _, given⟩ := Outcome.bind_eq_ok.1 given
  by_cases nothing : type = .void
  · simp only [nothing] at given
    cases given
  · by_cases large : 0xFFFF < ledger.nextLocal.toNat + type.size
    · simp only [nothing, large] at given
      cases given
    · simp only [nothing, large] at given
      cases given
      rfl

theorem phase_of_addHandler {block : TryBlock} (added : ledger.addHandler block = .ok after) :
    after.phase = ledger.phase := by
  obtain ⟨_, _, same⟩ := Outcome.bind_eq_ok.1 added
  cases same
  rfl

theorem phase_of_request {label : Label} {wanted : FrameRequest} {isNew : Bool}
    (asked : ledger.request label wanted = .ok (isNew, after)) : after.phase = ledger.phase := by
  obtain ⟨_, _, asked⟩ := Outcome.bind_eq_ok.1 asked
  split at asked
  · cases asked
    rfl
  · split at asked
    · cases asked
      rfl
    · cases asked

end Ledger

/-! ## What a single action writes -/

namespace MethodRewrite

/-- Code, exception blocks and frames are appended; the ledger stays as open as it is, and the class
is left alone.  Labels at the end of the code were there or are new, and the frames are pinned to
such labels. -/
structure Gains (before after : MethodRewrite) (nodes : List Node) (blocks : List TryBlock) :
    Prop where
  code : after.body.code = before.body.code ++ nodes
  blocks : after.body.tryBlocks.toList = before.body.tryBlocks.toList ++ blocks
  phase : after.ledger.phase = before.ledger.phase
  target : after.outline.target = before.outline.target
  group : ∀ label ∈ after.group, label ∈ before.group ∨ .label label ∈ nodes
  frames : ∃ pinned, after.body.frames.toList = before.body.frames.toList ++ pinned ∧
    ∀ frame ∈ pinned, frame.label ∈ before.group ∨ .label frame.label ∈ nodes

namespace Gains

variable {before middle after : MethodRewrite} {first second : List Node}
  {early late : List TryBlock}

theorem refl (rewrite : MethodRewrite) : Gains rewrite rewrite [] [] :=
  ⟨(List.append_nil _).symm, (List.append_nil _).symm, rfl, rfl, fun _ here => .inl here,
    [], (List.append_nil _).symm, List.forall_mem_nil _⟩

theorem trans (start : Gains before middle first early) (rest : Gains middle after second late) :
    Gains before after (first ++ second) (early ++ late) := by
  -- A label that was here in between was here before or is new.
  have here {label : Label} (known : label ∈ middle.group ∨ .label label ∈ second) :
      label ∈ before.group ∨ .label label ∈ first ++ second := by
    rw [List.mem_append]
    rcases known with old | new
    · exact (start.group label old).imp_right .inl
    · exact .inr (.inr new)
  obtain ⟨pinned, recorded, labels⟩ := start.frames
  obtain ⟨more, recorded', labels'⟩ := rest.frames
  refine ⟨?_, ?_, rest.phase.trans start.phase, rest.target.trans start.target, ?_,
    pinned ++ more, ?_, ?_⟩
  · rw [rest.code, start.code, List.append_assoc]
  · rw [rest.blocks, start.blocks, List.append_assoc]
  · exact fun label among => here (rest.group label among)
  · rw [recorded', recorded, List.append_assoc]
  · intro frame among
    rcases List.mem_append.1 among with old | new
    · exact (labels frame old).imp_right (List.mem_append_left _)
    · exact here (labels' frame new)

/-- The outline tells everything that can be gained. -/
theorem of_outline {other : MethodRewrite} (same : after.outline = other.outline)
    (gains : Gains before other first early) : Gains before after first early := by
  have body : after.body = other.body :=
    show after.outline.body = other.outline.body by rw [same]
  have ledger : after.ledger = other.ledger :=
    show after.outline.ledger = other.outline.ledger by rw [same]
  have group : after.group = other.group :=
    show after.outline.group = other.outline.group by rw [same]
  refine ⟨?_, ?_, ?_, ?_, ?_, ?_⟩
  · rw [body, gains.code]
  · rw [body, gains.blocks]
  · rw [ledger, gains.phase]
  · rw [same, gains.target]
  · rw [group]
    exact gains.group
  · rw [body]
    exact gains.frames

/-- An action that leaves code, blocks, phase, class, labels and frames alone. -/
theorem quiet {outline : MethodRewrite} (same : after.outline = outline)
    (nodes : outline.body.nodes = before.body.nodes)
    (blocks : outline.body.tryBlocks = before.body.tryBlocks)
    (phase : outline.ledger.phase = before.ledger.phase)
    (target : outline.target = before.outline.target)
    (group : outline.group = before.group)
    (frames : outline.body.frames = before.body.frames) : Gains before after [] [] := by
  subst same
  replace nodes : after.body.nodes = before.body.nodes := nodes
  replace blocks : after.body.tryBlocks = before.body.tryBlocks := blocks
  replace group : after.group = before.group := group
  replace frames : after.body.frames = before.body.frames := frames
  refine ⟨?_, ?_, phase, target, ?_, [], ?_, List.forall_mem_nil _⟩
  · rw [MethodBody.code, nodes, List.append_nil, MethodBody.code]
  · rw [blocks, List.append_nil]
  · rw [group]
    exact fun _ here => .inl here
  · rw [frames, List.append_nil]

/-- The same with a frame recorded at a label that is here. -/
theorem pin {outline : MethodRewrite} {frame : PinnedFrame}
    (same : after.outline = outline.withFrame frame) (here : frame.label ∈ before.group)
    (quiet : Gains before outline [] []) : Gains before after [] [] := by
  have body : after.body = { outline.body with frames := outline.body.frames.push frame } :=
    show after.outline.body = _ by rw [same]; rfl
  have ledger : after.ledger = outline.ledger := show after.outline.ledger = _ by rw [same]; rfl
  have group : after.group = outline.group := show after.outline.group = _ by rw [same]; rfl
  have target : after.outline.target = outline.target := by rw [same]; rfl
  obtain ⟨pinned, recorded, labels⟩ := quiet.frames
  refine ⟨?_, ?_, ?_, ?_, ?_, pinned ++ [frame], ?_, ?_⟩
  · rw [body]
    exact quiet.code
  · rw [body]
    exact quiet.blocks
  · rw [ledger, quiet.phase]
  · rw [← quiet.target]
    exact congrArg (fun target => { target with asked := [] }) target
  · rw [group]
    exact quiet.group
  · rw [body, Array.toList_push, recorded, List.append_assoc]
  · intro other among
    rcases List.mem_append.1 among with old | new
    · exact labels other old
    · rw [List.mem_singleton.1 new]
      exact .inl here

end Gains

/-- Labels that no offset has, and nothing else. -/
def Markers (nodes : List Node) : Prop := ∀ node ∈ nodes, ∃ label, label.isFresh = true ∧ node = .label label

theorem isFresh_freshLabel (rewrite : MethodRewrite) : rewrite.freshLabel.1.isFresh = true := by
  simp [freshLabel, Label.isFresh]

variable (rewrite : MethodRewrite)

theorem placeLabel_gains (label : Label) :
    Gains rewrite (rewrite.placeLabel label) [.label label] [] := by
  have same := rewrite.outline_placeLabel label
  have body : (rewrite.placeLabel label).body = rewrite.body.placeLabel label :=
    congrArg MethodRewrite.body same
  have phase : (rewrite.placeLabel label).ledger.phase = rewrite.ledger.phase :=
    congrArg (fun rewrite => rewrite.ledger.phase) same
  have group : (rewrite.placeLabel label).group = label :: rewrite.group :=
    congrArg MethodRewrite.group same
  refine ⟨?_, ?_, phase, by rw [same], ?_, [], ?_, List.forall_mem_nil _⟩
  · rw [body]
    simp [MethodBody.placeLabel, MethodBody.code]
  · rw [body]
    simp [MethodBody.placeLabel]
  · rw [group]
    intro other among
    rcases List.mem_cons.1 among with rfl | old
    · exact .inr List.mem_cons_self
    · exact .inl old
  · rw [body]
    simp [MethodBody.placeLabel]

theorem labelHere_gains : ∃ marker, Markers marker ∧ Gains rewrite rewrite.labelHere.2 marker [] := by
  cases group : rewrite.group with
  | cons label others =>
    rw [labelHere_of_group rewrite group]
    exact ⟨[], by simp [Markers], .refl rewrite⟩
  | nil =>
    rw [labelHere_of_empty rewrite group]
    refine ⟨[.label rewrite.freshLabel.1], ?_, ?_⟩
    · intro node among
      exact ⟨_, rewrite.isFresh_freshLabel, List.mem_singleton.1 among⟩
    · have handed : Gains rewrite rewrite.freshLabel.2 [] [] :=
        .quiet rewrite.outline_freshLabel rfl rfl rfl rfl rfl rfl
      exact handed.trans (placeLabel_gains _ rewrite.freshLabel.1)

theorem labelHere_mem : rewrite.labelHere.1 ∈ rewrite.labelHere.2.group := by
  cases group : rewrite.group with
  | cons label others =>
    rw [labelHere_of_group rewrite group, group]
    exact List.mem_cons_self
  | nil =>
    rw [labelHere_of_empty rewrite group]
    have placed : (rewrite.freshLabel.2.placeLabel rewrite.freshLabel.1).group =
        rewrite.freshLabel.1 :: rewrite.freshLabel.2.group :=
      congrArg MethodRewrite.group (outline_placeLabel _ _)
    rw [placed]
    exact List.mem_cons_self

theorem position_gains (insn : Instruction) :
    ∃ marker, Markers marker ∧ Gains rewrite (rewrite.position insn).2 marker [] := by
  unfold position
  split
  · exact ⟨[], by simp [Markers], .refl rewrite⟩
  · split
    · exact rewrite.labelHere_gains
    · exact ⟨[], by simp [Markers], .refl rewrite⟩

theorem putInstruction_gains (insn : Instruction) :
    Gains rewrite (rewrite.putInstruction insn) [.insn insn.normal] [] :=
  ⟨by simp [putInstruction, MethodBody.add, MethodBody.code, MethodEvent.ofInstruction],
    (List.append_nil _).symm, rfl, rfl, List.forall_mem_nil _, [], (List.append_nil _).symm,
    List.forall_mem_nil _⟩

theorem instruction_gains (insn : Instruction) (taken : rewrite.ledger.phase = .open) :
    ∃ marker, Markers marker ∧
      Gains rewrite (rewrite.instruction insn) (marker ++ [.insn insn.normal]) [] := by
  obtain ⟨marker, fresh, gains⟩ := rewrite.position_gains insn
  refine ⟨marker, fresh, ?_⟩
  have put := (rewrite.position insn).2.putInstruction_gains insn
  have same : (rewrite.instruction insn).outline =
      ((rewrite.position insn).2.putInstruction insn).outline :=
    rewrite.outline_instruction insn taken
  exact (gains.trans put).of_outline same

theorem originalFrame_gains (locals stack : List FrameType) :
    ∃ marker, Markers marker ∧ Gains rewrite (rewrite.originalFrame locals stack) marker [] := by
  rcases rewrite.outline_originalFrame locals stack with ⟨_, same⟩ | ⟨_, frame, at_, same⟩
  · rw [same]
    exact ⟨[], by simp [Markers], .refl rewrite⟩
  · obtain ⟨marker, fresh, gains⟩ := rewrite.labelHere_gains
    refine ⟨marker, fresh, ?_⟩
    have pinned : Gains rewrite.labelHere.2 (rewrite.originalFrame locals stack) [] [] := by
      refine .pin same ?_ (.quiet rfl rfl rfl rfl rfl rfl rfl)
      rw [at_]
      exact rewrite.labelHere_mem
    have recorded := gains.trans pinned
    rwa [List.append_nil, List.append_nil] at recorded

end MethodRewrite

/-- What an event writes: code, and exception blocks.  The end of a method is left out. -/
def MethodEvent.Writes : MethodEvent → List Node → List TryBlock → Prop
  | .label place, nodes, blocks => nodes = [.label place] ∧ blocks = []
  | .line number start, nodes, blocks => nodes = [.line number start] ∧ blocks = []
  | .insn own, nodes, blocks =>
    (∃ marker, MethodRewrite.Markers marker ∧ nodes = marker ++ [.insn own.normal]) ∧ blocks = []
  | .frame _ _, nodes, blocks => MethodRewrite.Markers nodes ∧ blocks = []
  | .tryBlock block, nodes, blocks => nodes = [] ∧ blocks = [block]
  | .sizes _ _, nodes, blocks | .variable _, nodes, blocks | .maxs _ _, nodes, blocks =>
    nodes = [] ∧ blocks = []
  | .finish, _, _ => False

namespace MethodRewrite

theorem step_gains (rewrite : MethodRewrite) (event : MethodEvent) (goesOn : event ≠ .finish)
    (taken : rewrite.ledger.phase = .open) :
    ∃ nodes blocks, event.Writes nodes blocks ∧ Gains rewrite (rewrite.step event) nodes blocks := by
  cases event with
  | sizes | «variable» | maxs => exact ⟨[], [], ⟨rfl, rfl⟩, .quiet rfl rfl rfl rfl rfl rfl rfl⟩
  | frame locals stack =>
    obtain ⟨marker, fresh, gains⟩ := rewrite.originalFrame_gains locals stack
    exact ⟨marker, [], ⟨fresh, rfl⟩, gains⟩
  | label label => exact ⟨[.label label], [], ⟨rfl, rfl⟩, rewrite.placeLabel_gains label⟩
  | line number start =>
    refine ⟨[.line number start], [], ⟨rfl, rfl⟩, ?_, (List.append_nil _).symm, rfl, rfl,
      fun _ here => .inl here, [], (List.append_nil _).symm, List.forall_mem_nil _⟩
    simp [step, MethodBody.add, MethodBody.code]
  | tryBlock block =>
    refine ⟨[], [block], ⟨rfl, rfl⟩, (List.append_nil _).symm, ?_, rfl, rfl,
      fun _ here => .inl here, [], (List.append_nil _).symm, List.forall_mem_nil _⟩
    simp [step, addRange, MethodBody.add]
  | insn insn =>
    obtain ⟨marker, fresh, gains⟩ := rewrite.instruction_gains insn taken
    exact ⟨_, [], ⟨⟨marker, fresh, rfl⟩, rfl⟩, gains⟩
  | finish => exact absurd rfl goesOn

end MethodRewrite

/-! ## Harmless requests -/

/-- Injected code places no label that stands for an offset, and leaves the end to the method. -/
def Injection.Request.Harmless : Injection.Request → Prop
  | event (.label placed) => placed.isFresh = true
  | event .finish => False
  | _ => True

def harmless : EventRule := fun _ _ _ request => request.Harmless

theorem permits_harmless : Permits harmless where
  label _ _ _ := trivial
  simple _ _ _ _ := trivial
  place _ _ _ label made := by
    have low := made.1
    simp only [harmless, Injection.Request.Harmless, Label.isFresh, decide_eq_true_eq]
    omega
  store _ _ _ _ := trivial
  handler _ _ _ _ _ _ := trivial
  caught _ _ _ _ _ _ := trivial
  fault _ _ _ _ := trivial

namespace Injection

/-- No request of the code does harm, whatever the answers to those before it. -/
def Harmless : Injection → Prop
  | done | fail _ => True
  | newLabel next => ∀ label : Label, label.isFresh = true → (next label).Harmless
  | allocate _ next | storeNew _ next => ∀ answer, (next answer).Harmless
  | handler _ next | frame _ _ next => ∀ answer, (next answer).Harmless
  | report _ next => next.Harmless
  | emit event next => (Request.event event).Harmless ∧ next.Harmless

theorem Harmless.obeys {event : MethodEvent} {start : MethodRewrite} :
    ∀ {code : Injection} (rewrite : MethodRewrite), code.Harmless →
      code.Obeys (harmless event start) rewrite
  | done, _, _ | fail _, _, _ => trivial
  | newLabel _, rewrite, fine =>
    ⟨trivial, (fine rewrite.freshLabel.1 (by simp [MethodRewrite.freshLabel, Label.isFresh])).obeys _⟩
  | allocate _ _, _, fine | storeNew _ _, _, fine | handler _ _, _, fine | frame _ _ _, _, fine =>
    ⟨trivial, (fine _).obeys _⟩
  | report _ next, _, fine => ⟨trivial, (show next.Harmless from fine).obeys _⟩
  | emit _ _, _, fine => ⟨fine.1, fine.2.obeys _⟩

end Injection

/-- Probe code that is harmless at every site. -/
def Probe.Harmless (probe : Probe) : Prop := ∀ site, (probe.code site).Harmless

theorem Probe.Harmless.obeys {probe : Probe} (fine : probe.Harmless) : probe.Obeys harmless :=
  fun _ _ rewrite site _ => (fine site).obeys rewrite

namespace Snippet

/-- A label that was renamed has the name it was given. -/
theorem rename_mem {renamed : List (Label × Label)} {label : Label}
    (known : label ∈ renamed.map Prod.fst) : ∃ pair ∈ renamed, rename renamed label = pair.2 := by
  unfold rename
  cases found : renamed.lookup label with
  | some other =>
    obtain ⟨before, after, same, _⟩ := List.lookup_eq_some_iff.1 found
    exact ⟨(label, other), by simp [same], rfl⟩
  | none =>
    obtain ⟨pair, among, rfl⟩ := List.mem_map.1 known
    have apart := List.lookup_eq_none_iff.1 found pair among
    simp at apart

theorem isFresh_rename {renamed : List (Label × Label)}
    (fresh : ∀ pair ∈ renamed, pair.2.isFresh = true) {label : Label}
    (known : label ∈ renamed.map Prod.fst) : (rename renamed label).isFresh = true := by
  obtain ⟨pair, among, same⟩ := rename_mem known
  rw [same]
  exact fresh pair among

theorem withFresh_harmless {next : List (Label × Label) → Injection} :
    ∀ (labels : List Label) {renamed : List (Label × Label)},
    (∀ pair ∈ renamed, pair.2.isFresh = true) →
    (∀ found : List (Label × Label), (∀ pair ∈ found, pair.2.isFresh = true) →
      found.map Prod.fst = renamed.map Prod.fst ++ labels → (next found).Harmless) →
    (withFresh renamed next labels).Harmless
  | [], renamed, fresh, goesOn => goesOn renamed fresh (List.append_nil _).symm
  | label :: labels, renamed, fresh, goesOn => by
    intro made isFresh
    refine withFresh_harmless labels ?_ fun found all names => goesOn found all ?_
    · intro pair among
      rcases List.mem_append.1 among with old | new
      · exact fresh pair old
      · obtain rfl := List.mem_singleton.1 new
        exact isFresh
    · rw [names, List.map_append, List.append_assoc]
      rfl

theorem replay_harmless {targets : List Label} {renamed : List (Label × Label)} :
    ∀ {code : Snippet}, (∀ label, .label label ∈ code → (rename renamed label).isFresh = true) →
      (replay targets renamed code).Harmless
  | [], _ => trivial
  | .label label :: rest, fresh => by
    have others : (replay targets renamed rest).Harmless := replay_harmless fun other among =>
      fresh other (List.mem_cons_of_mem (.label label) among)
    refine ⟨fresh label List.mem_cons_self, ?_⟩
    split
    · intro answer
      cases answer with
      | ok => exact others
      | error => trivial
    · exact others
  | .line _ _ :: rest, fresh =>
    ⟨trivial, replay_harmless fun other among => fresh other (List.mem_cons_of_mem _ among)⟩
  | .insn _ :: rest, fresh =>
    ⟨trivial, replay_harmless fun other among => fresh other (List.mem_cons_of_mem _ among)⟩

/-- Every label of a snippet is renamed to a fresh one. -/
theorem injection_harmless (code : Snippet) : code.injection.Harmless := by
  refine withFresh_harmless code.labels (by simp) fun renamed fresh names => ?_
  refine replay_harmless fun label among => isFresh_rename fresh ?_
  rw [names, List.map_nil, List.nil_append, labels, List.mem_eraseDups, List.mem_flatMap]
  exact ⟨.label label, among, List.mem_singleton.2 rfl⟩

theorem probeCode_harmless {probe : Probe} {code : Snippet} (same : probe.code = probeCode code) :
    probe.Harmless := by
  intro site
  rw [same]
  exact injection_harmless code

theorem probes_harmless {probes : List Probe}
    (snippets : ∀ probe ∈ probes, ∃ code, probe.code = probeCode code) :
    ∀ probe ∈ probes, probe.Harmless := by
  intro probe among
  obtain ⟨_, same⟩ := snippets probe among
  exact probeCode_harmless same

end Snippet

/-- Only labels that no offset has are placed. -/
def FreshLabels (nodes : List Node) : Prop := ∀ label, .label label ∈ nodes → label.isFresh = true

namespace MethodRewrite

theorem Markers.freshLabels {nodes : List Node} (markers : Markers nodes) : FreshLabels nodes := by
  intro label among
  obtain ⟨other, fresh, same⟩ := markers _ among
  cases same
  exact fresh

theorem inject_gains (rewrite : MethodRewrite) (event : MethodEvent)
    (fine : (Injection.Request.event event).Harmless) (taken : rewrite.ledger.phase = .open) :
    ∃ nodes blocks, FreshLabels nodes ∧ Gains rewrite (rewrite.inject event) nodes blocks := by
  have marked : Gains rewrite { rewrite with injected := true } [] [] :=
    .quiet rfl rfl rfl rfl rfl rfl rfl
  have goesOn : event ≠ .finish := by
    rintro rfl
    exact fine
  obtain ⟨nodes, blocks, written, gains⟩ :=
    step_gains { rewrite with injected := true } event goesOn taken
  refine ⟨nodes, blocks, ?_, marked.trans gains⟩
  -- Injected code may write labels of its own only, and those of the method are old.
  cases event with
  | label placed =>
    obtain ⟨rfl, _⟩ := written
    intro label among
    cases List.mem_singleton.1 among
    exact fine
  | line =>
    obtain ⟨rfl, _⟩ := written
    intro label among
    cases List.mem_singleton.1 among
  | insn =>
    obtain ⟨⟨marker, fresh, rfl⟩, _⟩ := written
    intro label among
    rcases List.mem_append.1 among with early | last
    · exact fresh.freshLabels label early
    · cases List.mem_singleton.1 last
  | frame => exact written.1.freshLabels
  | tryBlock | sizes | «variable» | maxs =>
    obtain ⟨rfl, _⟩ := written
    simp [FreshLabels]
  | finish => exact absurd rfl goesOn

theorem perform_gains (rewrite : MethodRewrite) (request : Injection.Request)
    (fine : request.Harmless) (taken : rewrite.ledger.phase = .open) :
    ∃ nodes blocks, FreshLabels nodes ∧ Gains rewrite (rewrite.perform request) nodes blocks := by
  have nothing : FreshLabels [] := by simp [FreshLabels]
  have slot (type : ValueType) : Gains rewrite (rewrite.allocate type).2 [] [] := by
    refine .quiet (outline_allocate rewrite type) rfl rfl ?_ rfl rfl rfl
    simp only
    split
    · exact Ledger.phase_of_allocate ‹_›
    · rfl
  cases request with
  | label => exact ⟨[], [], nothing, .quiet rfl rfl rfl rfl rfl rfl rfl⟩
  | event event => exact rewrite.inject_gains event fine taken
  | slot type => exact ⟨[], [], nothing, slot type⟩
  | store type =>
    show ∃ nodes blocks, _ ∧ Gains rewrite (rewrite.storeNew type).2 nodes blocks
    rw [storeNew_eq]
    split
    · rename_i place given
      obtain ⟨nodes, blocks, fresh, gains⟩ := (rewrite.allocate type).2.inject_gains
        (.insn (.var type.storeOpcode place)) trivial ((slot type).phase.trans taken)
      exact ⟨nodes, blocks, fresh, (slot type).trans gains⟩
    · exact ⟨[], [], nothing, slot type⟩
  | handler block =>
    refine ⟨[], [], nothing, .quiet (outline_addHandler rewrite block) rfl rfl ?_ rfl rfl rfl⟩
    simp only
    split
    · exact Ledger.phase_of_addHandler ‹_›
    · rfl
  | frame label wanted =>
    have same := outline_askFrame rewrite label wanted
    refine ⟨[], [], nothing, ?_⟩
    -- Only a granted request pins a frame, and it does so at a label that ends the code.
    rcases rewrite.outline_requestFrame label wanted with
      kept | marked | ⟨_, _, asked, here, at_, granted⟩
    · exact .quiet (same.trans kept) rfl rfl rfl rfl rfl rfl
    · exact .quiet (same.trans marked) rfl rfl rfl rfl rfl rfl
    · have quiet := Ledger.phase_of_request asked
      exact .pin (same.trans granted) (at_ ▸ here) (.quiet rfl rfl rfl quiet rfl rfl rfl)
  | fault cause =>
    exact ⟨[], [], nothing, .quiet (outline_fail rewrite cause) rfl rfl rfl rfl rfl rfl⟩

end MethodRewrite

/-! ## Traces -/

/-- Where a node of the new code comes from. -/
inductive Mark
  | own
  | injected
deriving DecidableEq, Repr

def Action.mark : Action → Mark
  | own _ => .own
  | request _ => .injected

namespace MethodRewrite

def act (rewrite : MethodRewrite) : Action → MethodRewrite
  | .own event => rewrite.step event
  | .request request => rewrite.perform request

/-- The nodes that actions write one after the other, each with its mark. -/
def trace : MethodRewrite → List Action → List (Mark × Node)
  | _, [] => []
  | rewrite, action :: rest =>
    ((rewrite.act action).body.code.drop rewrite.body.code.length).map (action.mark, ·)
      ++ (rewrite.act action).trace rest

end MethodRewrite

/-- Actions that lead from one rewrite to another, and what they write on the way. -/
structure Strand (before : MethodRewrite) (actions : List Action) (after : MethodRewrite)
    (marked : List (Mark × Node)) (blocks : List TryBlock) : Prop where
  replay : actions.foldl MethodRewrite.act before = after
  trace : before.trace actions = marked
  gains : before.Gains after (marked.map Prod.snd) blocks

namespace Strand

variable {before middle after : MethodRewrite} {early late : List Action}
  {first second : List (Mark × Node)} {ahead behind : List TryBlock}

theorem refl (rewrite : MethodRewrite) : Strand rewrite [] rewrite [] [] :=
  ⟨rfl, rfl, .refl rewrite⟩

theorem single {action : Action} {nodes : List Node} {blocks : List TryBlock}
    (gains : before.Gains (before.act action) nodes blocks) :
    Strand before [action] (before.act action) (nodes.map (action.mark, ·)) blocks := by
  refine ⟨rfl, ?_, ?_⟩
  · rw [MethodRewrite.trace, gains.code, List.drop_left, MethodRewrite.trace, List.append_nil]
  · simpa [Function.comp_def] using gains

theorem trans (start : Strand before early middle first ahead)
    (rest : Strand middle late after second behind) :
    Strand before (early ++ late) after (first ++ second) (ahead ++ behind) := by
  refine ⟨?_, ?_, ?_⟩
  · rw [List.foldl_append, start.replay, rest.replay]
  · have split : ∀ (actions : List Action) (rewrite : MethodRewrite),
        rewrite.trace (actions ++ late) =
          rewrite.trace actions ++ (actions.foldl MethodRewrite.act rewrite).trace late := by
      intro actions
      induction actions with
      | nil => exact fun _ => rfl
      | cons action actions ih =>
        intro rewrite
        rw [List.cons_append, MethodRewrite.trace, ih, MethodRewrite.trace, List.append_assoc]
        rfl
    rw [split, start.replay, start.trace, rest.trace]
  · rw [List.map_append]
    exact start.gains.trans rest.gains

theorem phase (strand : Strand before early after first ahead) :
    after.ledger.phase = before.ledger.phase := strand.gains.phase

end Strand

/-! ## What runs of harmless code write -/

/-- Code of a request, its labels not those of offsets. -/
def Injected (item : Mark × Node) : Prop :=
  item.1 = .injected ∧ ∀ label, item.2 = .label label → label.isFresh = true

/-- Anything but an instruction of the method or a label of an offset. -/
def Between (item : Mark × Node) : Prop :=
  (item.1 = .own → ∀ insn, item.2 ≠ .insn insn) ∧
    ∀ label, item.2 = .label label → label.isFresh = true

theorem Injected.between {item : Mark × Node} (injected : Injected item) : Between item := by
  refine ⟨fun own => ?_, injected.2⟩
  rw [injected.1] at own
  cases own

theorem Requests.strand {rule : Rule} (fine : ∀ rewrite request, rule rewrite request → request.Harmless)
    {before after : MethodRewrite} {requests : List Injection.Request}
    (run : Requests rule before requests after) (taken : before.ledger.phase = .open) :
    ∃ marked blocks, Strand before (requests.map .request) after marked blocks ∧
      ∀ item ∈ marked, Injected item := by
  induction run with
  | done rewrite => exact ⟨[], [], .refl rewrite, by simp⟩
  | @more rewrite after request requests permitted rest ih =>
    obtain ⟨nodes, own, fresh, gains⟩ := rewrite.perform_gains request (fine _ _ permitted) taken
    obtain ⟨marked, blocks, strand, injected⟩ := ih (gains.phase.trans taken)
    have one : Strand rewrite [.request request] (rewrite.perform request)
      (nodes.map (Mark.injected, ·)) own := .single gains
    refine ⟨_, _, one.trans strand, ?_⟩
    intro item among
    rcases List.mem_append.1 among with new | later
    · obtain ⟨node, known, rfl⟩ := List.mem_map.1 new
      refine ⟨rfl, fun label same => fresh label ?_⟩
      rwa [← same]
    · exact injected item later

theorem Requests.harmless_strand {event : MethodEvent} {start before after : MethodRewrite}
    {requests : List Injection.Request} (run : Requests (harmless event start) before requests after)
    (taken : before.ledger.phase = .open) :
    ∃ marked blocks, Strand before (requests.map .request) after marked blocks ∧
      ∀ item ∈ marked, Injected item :=
  run.strand (fun _ _ fine => fine) taken

/-- An event among the injected code around it. -/
theorem Weaves.event_inv {event : MethodEvent} {events : List MethodEvent}
    {before after : MethodRewrite} {actions : List Action}
    (run : Weaves harmless (event :: events) before actions after) (goesOn : event ≠ .finish)
    (taken : before.ledger.phase = .open) :
    ∃ middle first rest ahead own nodes written behind blocks, actions = first ++ rest ∧
      Strand before first middle (ahead ++ (nodes.map (Mark.own, ·) ++ behind))
        (own ++ (written ++ blocks)) ∧
      (∀ item ∈ ahead, Injected item) ∧ (∀ item ∈ behind, Injected item) ∧
      event.Writes nodes written ∧ Weaves harmless events middle rest after := by
  cases run with
  | @event _ _ _ reached middle _ early late rest into out others =>
    obtain ⟨ahead, own, start, injected⟩ := into.harmless_strand taken
    obtain ⟨nodes, written, writes, gains⟩ :=
      reached.step_gains event goesOn (start.phase.trans taken)
    have one : Strand reached [.own event] (reached.step event) (nodes.map (Mark.own, ·)) written :=
      .single gains
    obtain ⟨behind, blocks, left, injected'⟩ :=
      out.harmless_strand (one.phase.trans (start.phase.trans taken))
    refine ⟨middle, early.map .request ++ ([.own event] ++ late.map .request), rest, ahead, own,
      nodes, written, behind, blocks, ?_, start.trans (one.trans left), injected, injected',
      writes, others⟩
    simp

/-- The blocks among events. -/
def MethodEvent.block? : MethodEvent → Option TryBlock
  | .tryBlock block => some block
  | _ => none

theorem MethodEvent.Writes.blocks {event : MethodEvent} {nodes : List Node}
    {blocks : List TryBlock} (writes : event.Writes nodes blocks) :
    blocks = event.block?.toList := by
  cases event with
  | finish => exact writes.elim
  | _ => exact writes.2

/-- Events whose nodes are all good, with injected code that is good as well. -/
theorem Weaves.run_inv {good : Mark × Node → Prop} (fine : ∀ item, Injected item → good item) :
    ∀ {ahead events : List MethodEvent} {before after : MethodRewrite} {actions : List Action},
    (∀ event ∈ ahead, event ≠ .finish ∧ ∀ nodes blocks, event.Writes nodes blocks →
      ∀ node ∈ nodes, good (.own, node)) →
    Weaves harmless (ahead ++ events) before actions after → before.ledger.phase = .open →
    ∃ middle first rest marked blocks, actions = first ++ rest ∧
      Strand before first middle marked blocks ∧ (∀ item ∈ marked, good item) ∧
      (ahead.filterMap MethodEvent.block?).Sublist blocks ∧
      Weaves harmless events middle rest after
  | [], _, before, _, actions, _, run, _ =>
    ⟨before, [], actions, [], [], rfl, .refl before, by simp, .slnil, run⟩
  | one :: ahead, events, before, after, actions, own, run, taken => by
    obtain ⟨goesOn, allGood⟩ := own one List.mem_cons_self
    obtain ⟨middle, first, rest, injected, early, nodes, written, behind, late, rfl, strand,
      fineAhead, fineBehind, writes, others⟩ := Weaves.event_inv run goesOn taken
    obtain ⟨reached, second, last, marked, blocks, rfl, strand', all, listed, others'⟩ :=
      run_inv fine (fun other among => own other (List.mem_cons_of_mem _ among)) others
        (strand.phase.trans taken)
    refine ⟨reached, first ++ second, last, _, _, (List.append_assoc _ _ _).symm,
      strand.trans strand', ?_, ?_, others'⟩
    · intro item among
      simp only [List.mem_append, List.mem_map] at among
      rcases among with (front | ⟨node, known, rfl⟩ | back) | later
      · exact fine item (fineAhead item front)
      · exact allGood nodes written writes node known
      · exact fine item (fineBehind item back)
      · exact all item later
    · have kept : one.block?.toList.Sublist (early ++ (written ++ late)) := by
        rw [writes.blocks]
        exact (List.sublist_append_left _ _).trans (List.sublist_append_right _ _)
      have split : (one :: ahead).filterMap MethodEvent.block? =
          one.block?.toList ++ ahead.filterMap MethodEvent.block? := by
        rw [List.filterMap_cons]
        cases one.block? <;> rfl
      rw [split]
      exact kept.append listed

/-- A whole run without the end of the method. -/
theorem Weaves.strand {good : Mark × Node → Prop} (fine : ∀ item, Injected item → good item)
    {events : List MethodEvent} {before after : MethodRewrite} {actions : List Action}
    (own : ∀ event ∈ events, event ≠ .finish ∧ ∀ nodes blocks, event.Writes nodes blocks →
      ∀ node ∈ nodes, good (.own, node))
    (run : Weaves harmless events before actions after) (taken : before.ledger.phase = .open) :
    ∃ marked blocks, Strand before actions after marked blocks ∧ ∀ item ∈ marked, good item := by
  rw [← List.append_nil events] at run
  obtain ⟨_, first, _, marked, blocks, rfl, strand, all, _, rest⟩ := run_inv fine own run taken
  cases rest
  rw [List.append_nil]
  exact ⟨marked, blocks, strand, all⟩

/-- Events that write no code. -/
def MethodEvent.Silent : MethodEvent → Prop
  | .sizes _ _ | .tryBlock _ | .variable _ | .maxs _ _ => True
  | _ => False

theorem MethodEvent.Silent.writes_nothing {event : MethodEvent} (silent : event.Silent) :
    event ≠ .finish ∧ ∀ nodes blocks, event.Writes nodes blocks →
      ∀ node ∈ nodes, Injected (.own, node) := by
  cases event with
  | sizes | tryBlock | «variable» | maxs =>
    refine ⟨by simp, fun nodes blocks writes => ?_⟩
    rw [writes.1]
    simp
  | _ => exact silent.elim

/-- Lines and frames. -/
def MethodEvent.Aside : MethodEvent → Prop
  | .line _ _ | .frame _ _ => True
  | _ => False

theorem MethodRewrite.Markers.between {nodes : List Node} (markers : Markers nodes) :
    ∀ node ∈ nodes, Between (.own, node) := by
  intro node among
  obtain ⟨label, fresh, rfl⟩ := markers node among
  refine ⟨fun _ _ => nofun, ?_⟩
  intro other same
  cases same
  exact fresh

theorem MethodEvent.Aside.writes_between {event : MethodEvent} (aside : event.Aside) :
    event ≠ .finish ∧ ∀ nodes blocks, event.Writes nodes blocks →
      ∀ node ∈ nodes, Between (.own, node) := by
  cases event with
  | line number start =>
    refine ⟨by simp, ?_⟩
    rintro nodes blocks ⟨rfl, _⟩ node among
    obtain rfl := List.mem_singleton.1 among
    exact ⟨fun _ _ => nofun, fun _ => nofun⟩
  | frame => exact ⟨by simp, fun nodes blocks writes => writes.1.between⟩
  | _ => exact aside.elim

/-! ## The method among injected code -/

/-- Code in which the instructions of a method follow each other, each behind its label with
nothing of the method in between, and the label of the end behind them all. -/
inductive Woven (length : Nat) : List (Nat × Instruction) → List (Mark × Node) → Prop
  | last {before after : List (Mark × Node)} (ahead : ∀ item ∈ before, Injected item)
      (behind : ∀ item ∈ after, Injected item) :
      Woven length [] (before ++ (.own, .label ⟨length⟩) :: after)
  | insn {offset : Nat} {insn : Instruction} {items : List (Nat × Instruction)}
      {before between rest : List (Mark × Node)} (ahead : ∀ item ∈ before, Injected item)
      (inside : ∀ item ∈ between, Between item) (others : Woven length items rest) :
      Woven length ((offset, insn) :: items)
        (before ++ (.own, .label ⟨offset⟩) :: (between ++ (.own, .insn insn.normal) :: rest))

namespace Woven

variable {length : Nat} {items : List (Nat × Instruction)} {marked more : List (Mark × Node)}

theorem prepend (woven : Woven length items marked) (injected : ∀ item ∈ more, Injected item) :
    Woven length items (more ++ marked) := by
  have both {before : List (Mark × Node)} (ahead : ∀ item ∈ before, Injected item) :
      ∀ item ∈ more ++ before, Injected item := fun item among =>
    (List.mem_append.1 among).elim (injected item) (ahead item)
  cases woven with
  | last ahead behind =>
    rw [← List.append_assoc]
    exact .last (both ahead) behind
  | insn ahead inside others =>
    rw [← List.append_assoc]
    exact .insn (both ahead) inside others

theorem append (woven : Woven length items marked) (injected : ∀ item ∈ more, Injected item) :
    Woven length items (marked ++ more) := by
  induction woven with
  | last ahead behind =>
    rw [List.append_assoc, List.cons_append]
    refine .last ahead fun item among => ?_
    exact (List.mem_append.1 among).elim (behind item) (injected item)
  | insn ahead inside others ih =>
    simp only [List.append_assoc, List.cons_append]
    exact .insn ahead inside ih

end Woven

theorem Instruction.normal_normal (insn : Instruction) : insn.normal.normal = insn.normal := by
  cases insn <;> rfl

/-- What is told between the label of an instruction and the instruction. -/
def CodeAttribute.asides (lines : Std.TreeMap Nat (List UInt16))
    (frames : Std.TreeMap Nat PinnedFrame) (offset : Nat) : List MethodEvent :=
  ((lines[offset]?).getD []).map (fun number => .line number ⟨offset⟩)
    ++ match frames[offset]? with
      | some frame => [.frame frame.locals frame.stack]
      | none => []

theorem CodeAttribute.tellInstruction_eq (lines : Std.TreeMap Nat (List UInt16))
    (frames : Std.TreeMap Nat PinnedFrame) (offset : Nat) (insn : Instruction) :
    tellInstruction lines frames offset insn =
      .label ⟨offset⟩ :: (asides lines frames offset ++ [.insn insn.normal]) := by
  unfold tellInstruction asides
  cases frames[offset]? <;> simp [MethodEvent.ofInstruction]

theorem CodeAttribute.aside_of_mem {lines : Std.TreeMap Nat (List UInt16)}
    {frames : Std.TreeMap Nat PinnedFrame} {offset : Nat} {event : MethodEvent}
    (among : event ∈ asides lines frames offset) : event.Aside := by
  rcases List.mem_append.1 among with line | frame
  · obtain ⟨number, _, rfl⟩ := List.mem_map.1 line
    trivial
  · split at frame
    · obtain rfl := List.mem_singleton.1 frame
      trivial
    · cases frame

/-- The instructions of a method told in order, up to the label of the end. -/
theorem Weaves.woven {length : Nat} {lines : Std.TreeMap Nat (List UInt16)}
    {frames : Std.TreeMap Nat PinnedFrame} : ∀ {items : List (Nat × Instruction)}
    {events : List MethodEvent} {before after : MethodRewrite} {actions : List Action},
    Weaves harmless (items.flatMap (fun (offset, insn) =>
      CodeAttribute.tellInstruction lines frames offset insn) ++ .label ⟨length⟩ :: events)
      before actions after → before.ledger.phase = .open →
    ∃ middle first rest marked blocks, actions = first ++ rest ∧
      Strand before first middle marked blocks ∧ Woven length items marked ∧
      Weaves harmless events middle rest after
  | [], events, before, after, actions, run, taken => by
    obtain ⟨middle, first, rest, ahead, _, nodes, written, behind, _, rfl, strand, injected,
      injected', ⟨rfl, _⟩, others⟩ := Weaves.event_inv run (by simp) taken
    exact ⟨middle, first, rest, _, _, rfl, strand, .last injected injected', others⟩
  | (offset, insn) :: items, events, before, after, actions, run, taken => by
    rw [List.flatMap_cons] at run
    simp only at run
    rw [CodeAttribute.tellInstruction_eq, List.append_assoc, List.cons_append,
      List.append_assoc] at run
    obtain ⟨placed, first, rest, ahead, _, _, _, behind, _, rfl, strand, injected, injected',
      ⟨rfl, _⟩, others⟩ := Weaves.event_inv run (by simp) taken
    obtain ⟨reached, second, rest, asides, _, rfl, strand', between, _, others⟩ :=
      Weaves.run_inv (fun _ => Injected.between) (fun event among =>
        (CodeAttribute.aside_of_mem among).writes_between) others (strand.phase.trans taken)
    obtain ⟨passed, third, rest, front, _, _, _, back, _, rfl, strand'', fine, fine',
      ⟨⟨marker, fresh, rfl⟩, _⟩, others⟩ := Weaves.event_inv others (by simp)
        (strand'.phase.trans (strand.phase.trans taken))
    obtain ⟨middle, fourth, rest, marked, _, rfl, last, woven, others⟩ := Weaves.woven others
      (strand''.phase.trans (strand'.phase.trans (strand.phase.trans taken)))
    refine ⟨middle, first ++ (second ++ (third ++ fourth)), rest, _, _, by simp,
      strand.trans (strand'.trans (strand''.trans last)), ?_, others⟩
    have inside : ∀ item ∈ behind ++ (asides ++ (front ++ marker.map (Mark.own, ·))),
        Between item := by
      intro item among
      simp only [List.mem_append, List.mem_map] at among
      rcases among with back | aside | front | ⟨node, known, rfl⟩
      · exact (injected' item back).between
      · exact between item aside
      · exact (fine item front).between
      · exact fresh.between node known
    have whole : Woven length ((offset, insn) :: items) _ :=
      .insn injected inside (woven.prepend fine')
    simpa [Instruction.normal_normal] using whole

/-- Whole methods: what is told before the instructions, the instructions, and the rest. -/
theorem Weaves.told_inv {length : Nat} {lines : Std.TreeMap Nat (List UInt16)}
    {frames : Std.TreeMap Nat PinnedFrame} {items : List (Nat × Instruction)}
    {preface rest : List MethodEvent} {before after : MethodRewrite} {actions : List Action}
    (run : Weaves harmless (preface ++ (items.flatMap (fun (offset, insn) =>
      CodeAttribute.tellInstruction lines frames offset insn) ++ .label ⟨length⟩ :: rest))
      before actions after) (taken : before.ledger.phase = .open)
    (silent : ∀ event ∈ preface, event.Silent) (silent' : ∀ event ∈ rest, event.Silent) :
    ∃ marked blocks, Strand before actions after marked blocks ∧ Woven length items marked ∧
      (preface.filterMap MethodEvent.block?).Sublist blocks := by
  obtain ⟨opened, first, actions, ahead, blocks, rfl, strand, injected, listed, run⟩ :=
    Weaves.run_inv (fun _ fine => fine) (fun event among => (silent event among).writes_nothing)
      run taken
  obtain ⟨middle, second, actions, marked, others, rfl, strand', woven, run⟩ :=
    Weaves.woven run (strand.phase.trans taken)
  rw [← List.append_nil rest] at run
  obtain ⟨closed, third, actions, behind, more, rfl, strand'', injected', _, run⟩ :=
    Weaves.run_inv (fun _ fine => fine) (fun event among => (silent' event among).writes_nothing)
      run (strand'.phase.trans (strand.phase.trans taken))
  cases run
  refine ⟨_, _, ?_, (woven.append injected').prepend injected,
    listed.trans (List.sublist_append_left blocks (others ++ more))⟩
  rw [List.append_nil]
  exact strand.trans (strand'.trans strand'')

end ClassWeave
