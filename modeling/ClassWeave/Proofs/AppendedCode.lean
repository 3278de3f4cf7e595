/-
# ClassWeave.Proofs.AppendedCode -- what a body grows by

A rewrite only appends: to its code, to its exception blocks, and to the handlers that
its ledger keeps.  `MethodRewrite.Adds` says what was appended between two stages, and
which labels were placed on the way.

Requests of layers and snippets place labels that are new since they began, and register
no handler before the end of the method (`Requests.adds`).  Events of the method place
their own labels and bring their own blocks.  So of a whole run it is known which labels
can stand in its code at all (`Layer.runAll_adds`).
-/
import ClassWeave.Proofs.LedgerHistory
import ClassWeave.Proofs.PlacedLabels
import ClassWeave.Proofs.TameCode

set_option autoImplicit false

namespace ClassWeave

/-- The label was not handed out yet at that stage. -/
def Label.Since (start : MethodRewrite) (label : Label) : Prop :=
  Label.firstFresh + start.nextLabel ≤ label.id

theorem Label.Since.isFresh {start : MethodRewrite} {label : Label} (new : label.Since start) :
    label.isFresh = true := by
  unfold Label.Since at new
  simp only [Label.isFresh, decide_eq_true_eq]
  omega

theorem Label.Since.earlier {before after : MethodRewrite} {label : Label} (new : label.Since after)
    (labels : before.nextLabel ≤ after.nextLabel) : label.Since before :=
  Nat.le_trans (Nat.add_le_add_left labels _) new

namespace MethodRewrite

/-- Code is appended, its labels all of a kind, and so are exception blocks and handlers. -/
structure Adds (kind : Label → Prop) (before after : MethodRewrite) (nodes : List Node)
    (blocks handlers : List TryBlock) : Prop where
  code : after.body.code = before.body.code ++ nodes
  blocks : after.body.tryBlocks.toList = before.body.tryBlocks.toList ++ blocks
  handlers : after.ledger.handlers.toList = before.ledger.handlers.toList ++ handlers
  labels : before.nextLabel ≤ after.nextLabel
  kind : ∀ label, .label label ∈ nodes → kind label

namespace Adds

variable {kind weaker : Label → Prop} {before middle after outline : MethodRewrite}
  {first second : List Node} {blocks more handlers others : List TryBlock}

/-- Nothing is appended. -/
theorem quiet (body : after.body.code = before.body.code)
    (blocks : after.body.tryBlocks = before.body.tryBlocks)
    (handlers : after.ledger.handlers = before.ledger.handlers)
    (labels : before.nextLabel ≤ after.nextLabel) : Adds kind before after [] [] [] :=
  ⟨by rw [body, List.append_nil], by rw [blocks, List.append_nil],
    by rw [handlers, List.append_nil], labels,
    fun _ among => absurd among List.not_mem_nil⟩

theorem refl (rewrite : MethodRewrite) : Adds kind rewrite rewrite [] [] [] :=
  quiet rfl rfl rfl (Nat.le_refl _)

theorem trans (early : Adds kind before middle first blocks handlers)
    (late : Adds kind middle after second more others) :
    Adds kind before after (first ++ second) (blocks ++ more) (handlers ++ others) where
  code := by rw [late.code, early.code, List.append_assoc]
  blocks := by rw [late.blocks, early.blocks, List.append_assoc]
  handlers := by rw [late.handlers, early.handlers, List.append_assoc]
  labels := Nat.le_trans early.labels late.labels
  kind := by
    intro label among
    rcases List.mem_append.1 among with old | new
    · exact early.kind label old
    · exact late.kind label new

theorem mono (adds : Adds kind before after first blocks handlers)
    (implies : ∀ label, kind label → weaker label) :
    Adds weaker before after first blocks handlers :=
  { adds with kind := fun label among => implies label (adds.kind label among) }

theorem of_outline (same : after.outline = outline)
    (adds : Adds kind before outline first blocks handlers) :
    Adds kind before after first blocks handlers := by
  subst same
  exact ⟨adds.code, adds.blocks, adds.handlers, adds.labels, adds.kind⟩

end Adds

variable (rewrite : MethodRewrite)

theorem placeLabel_adds (label : Label) :
    Adds (· = label) rewrite (rewrite.placeLabel label) [.label label] [] [] := by
  refine .of_outline (rewrite.outline_placeLabel label) ⟨rewrite.body.code_placeLabel label,
    (List.append_nil _).symm, (List.append_nil _).symm, Nat.le_refl _, fun other among => ?_⟩
  cases List.mem_singleton.1 among
  rfl

theorem injectLabel_adds (label : Label) :
    Adds (· = label) rewrite (rewrite.inject (.label label)) [.label label] [] [] := by
  have adds := placeLabel_adds { rewrite with injected := true } label
  exact ⟨adds.code, adds.blocks, adds.handlers, adds.labels, adds.kind⟩

theorem labelHere_adds :
    ∃ nodes, Adds (Label.Since rewrite) rewrite rewrite.labelHere.2 nodes [] [] := by
  cases group : rewrite.group with
  | cons label others =>
    rw [labelHere_of_group rewrite group]
    exact ⟨[], .refl rewrite⟩
  | nil =>
    rw [labelHere_of_empty rewrite group]
    have handed : Adds (Label.Since rewrite) rewrite rewrite.freshLabel.2 [] [] [] :=
      .quiet rfl rfl rfl (Nat.le_succ _)
    have placed := rewrite.freshLabel.2.placeLabel_adds rewrite.freshLabel.1
    refine ⟨_, handed.trans (placed.mono ?_)⟩
    rintro _ rfl
    exact Nat.le_refl _

theorem instruction_adds (insn : Instruction) :
    ∃ nodes, Adds (Label.Since rewrite) rewrite (rewrite.instruction insn) nodes [] [] := by
  by_cases taken : rewrite.ledger.phase = .open
  · have placed : ∃ nodes,
        Adds (Label.Since rewrite) rewrite (rewrite.position insn).2 nodes [] [] := by
      unfold position
      split
      · exact ⟨[], .refl rewrite⟩
      · split
        · exact rewrite.labelHere_adds
        · exact ⟨[], .refl rewrite⟩
    obtain ⟨nodes, placed⟩ := placed
    have put : Adds (Label.Since rewrite) (rewrite.position insn).2 (rewrite.instruction insn)
        [.insn insn.normal] [] [] := by
      refine .of_outline (rewrite.outline_instruction insn taken)
        ⟨((rewrite.position insn).2.putInstruction_gains insn).code, (List.append_nil _).symm,
          (List.append_nil _).symm, Nat.le_refl _, fun label among => ?_⟩
      cases List.mem_singleton.1 among
    exact ⟨_, placed.trans put⟩
  · unfold instruction
    rw [if_pos taken]
    exact ⟨[], .quiet rfl rfl rfl (Nat.le_refl _)⟩

theorem originalFrame_adds (locals stack : List FrameType) : ∃ nodes,
    Adds (Label.Since rewrite) rewrite (rewrite.originalFrame locals stack) nodes [] [] := by
  rcases rewrite.outline_originalFrame locals stack with ⟨_, same⟩ | ⟨_, frame, _, same⟩
  · rw [same]
    exact ⟨[], .refl rewrite⟩
  · obtain ⟨nodes, placed⟩ := rewrite.labelHere_adds
    have pinned : Adds (Label.Since rewrite) rewrite.labelHere.2
        (rewrite.originalFrame locals stack) [] [] [] :=
      .of_outline same (.quiet rfl rfl rfl (Nat.le_refl _))
    exact ⟨_, placed.trans pinned⟩

/-- An event of the method places its own label, and those that are made for it. -/
theorem step_adds {event : MethodEvent} (goesOn : event ≠ .finish) : ∃ nodes,
    Adds (fun label => label.Since rewrite ∨ event.label? = some label) rewrite
      (rewrite.step event) nodes event.block?.toList [] := by
  cases event with
  | sizes | «variable» | maxs => exact ⟨[], .quiet rfl rfl rfl (Nat.le_refl _)⟩
  | frame locals stack =>
    obtain ⟨nodes, adds⟩ := rewrite.originalFrame_adds locals stack
    exact ⟨nodes, adds.mono fun _ => .inl⟩
  | label label =>
    exact ⟨_, (rewrite.placeLabel_adds label).mono fun _ same => .inr (congrArg some same.symm)⟩
  | line number start =>
    refine ⟨[.line number start], ?_, (List.append_nil _).symm, (List.append_nil _).symm,
      Nat.le_refl _, fun label among => by cases List.mem_singleton.1 among⟩
    simp [step, MethodBody.add, MethodBody.code]
  | tryBlock block =>
    refine ⟨[], (List.append_nil _).symm, ?_, (List.append_nil _).symm, Nat.le_refl _,
      fun _ among => absurd among List.not_mem_nil⟩
    simp [step, addRange, MethodBody.add, MethodEvent.block?]
  | insn insn =>
    obtain ⟨nodes, adds⟩ := rewrite.instruction_adds insn
    exact ⟨nodes, adds.mono fun _ => .inl⟩
  | finish => exact absurd rfl goesOn

theorem allocate_adds {kind : Label → Prop} (type : ValueType) :
    Adds kind rewrite (rewrite.allocate type).2 [] [] [] := by
  refine .of_outline (rewrite.outline_allocate type) (.quiet rfl rfl ?_ (Nat.le_refl _))
  simp only
  split
  · rename_i granted
    obtain ⟨_, _, _, _, rfl⟩ := Ledger.allocate_eq_ok.1 granted
    rfl
  · rfl

theorem addHandler_adds {kind : Label → Prop} {block : TryBlock}
    (added : (rewrite.addHandler block).1 = .ok ()) :
    Adds kind rewrite (rewrite.addHandler block).2 [] [] [block] := by
  refine .of_outline (rewrite.outline_addHandler block)
    ⟨(List.append_nil _).symm, (List.append_nil _).symm, ?_, Nat.le_refl _,
      fun _ among => absurd among List.not_mem_nil⟩
  cases open_ : rewrite.ledger.addHandler block with
  | error cause =>
    simp only [addHandler, open_] at added
    cases added
  | ok ledger =>
    obtain ⟨_, rfl⟩ := Ledger.addHandler_eq_ok.1 open_
    exact Array.toList_push

theorem askFrame_adds {kind : Label → Prop} (label : Label) (wanted : FrameRequest) :
    Adds kind rewrite (rewrite.askFrame label wanted).2 [] [] [] := by
  refine .of_outline (rewrite.outline_askFrame label wanted) ?_
  rcases rewrite.outline_requestFrame label wanted with
    same | same | ⟨ledger, frame, asked, _, _, same⟩
  · rw [same]
    exact .quiet rfl rfl rfl (Nat.le_refl _)
  · rw [same]
    exact .quiet rfl rfl rfl (Nat.le_refl _)
  · rw [same]
    refine .quiet rfl rfl ?_ (Nat.le_refl _)
    obtain ⟨_, ⟨_, _, rfl⟩ | ⟨_, _, _, rfl⟩⟩ := Ledger.request_eq_ok.1 asked <;> rfl

/-- An event that is told by injected code, with a label that is new. -/
theorem inject_adds {start : MethodRewrite} (later : start.nextLabel ≤ rewrite.nextLabel)
    {event : MethodEvent} (goesOn : event ≠ .finish) (plain : event.block? = none)
    (new : ∀ label, event.label? = some label → label.Since start) : ∃ nodes,
    Adds (Label.Since start) rewrite (rewrite.inject event) nodes [] [] := by
  obtain ⟨nodes, adds⟩ := step_adds { rewrite with injected := true } goesOn
  rw [plain] at adds
  refine ⟨nodes, adds.code, adds.blocks, adds.handlers, adds.labels, fun label among => ?_⟩
  rcases adds.kind label among with since | own
  · exact since.earlier later
  · exact new label own

/-- Before the end a tame request registers nothing, and its labels are new. -/
theorem perform_adds {came : MethodEvent} {start : MethodRewrite} (calm : ¬ came.IsMaxs)
    (later : start.nextLabel ≤ rewrite.nextLabel) {request : Injection.Request}
    (fine : request.Tame came start rewrite) : ∃ nodes,
    Adds (Label.Since start) rewrite (rewrite.perform request) nodes [] [] := by
  cases request with
  | label => exact ⟨[], .quiet rfl rfl rfl (Nat.le_succ _)⟩
  | event event =>
    cases event with
    | label label =>
      refine rewrite.inject_adds later nofun rfl fun other own => ?_
      cases own
      exact fine.1
    | line | insn => exact rewrite.inject_adds later nofun rfl nofun
    | _ => exact fine.elim
  | slot type => exact ⟨[], rewrite.allocate_adds type⟩
  -- A store is a slot and, if one is left, an instruction that is written like any other.
  | store type =>
    have slot : Adds (Label.Since start) rewrite (rewrite.allocate type).2 [] [] [] :=
      rewrite.allocate_adds type
    show ∃ nodes, Adds (Label.Since start) rewrite (rewrite.storeNew type).2 nodes [] []
    rw [storeNew_eq]
    split
    · rename_i number _
      have store : MethodEvent.insn (.var type.storeOpcode number) ≠ .finish := nofun
      obtain ⟨nodes, stored⟩ := inject_adds _ (Nat.le_trans later slot.labels) store rfl nofun
      exact ⟨_, slot.trans stored⟩
    · exact ⟨[], slot⟩
  | handler => exact absurd fine.1 calm
  | frame label wanted => exact ⟨[], rewrite.askFrame_adds label wanted⟩
  | fault => exact ⟨[], .quiet rfl rfl rfl (Nat.le_refl _)⟩

end MethodRewrite

open MethodRewrite (Adds)

/-- Whatever tame requests come to before the end, only code is appended, and its labels are new. -/
theorem Served.adds {came : MethodEvent} {start before after : MethodRewrite}
    (calm : ¬ came.IsMaxs) (later : start.nextLabel ≤ before.nextLabel)
    (served : Served (tame came start) before after) :
    ∃ nodes, Adds (Label.Since start) before after nodes [] [] := by
  obtain ⟨requests, run⟩ := served
  induction run with
  | done rewrite => exact ⟨[], .refl rewrite⟩
  | more fine _ ih =>
    obtain ⟨first, one⟩ := MethodRewrite.perform_adds _ calm later fine
    obtain ⟨second, others⟩ := ih (Nat.le_trans later one.labels)
    exact ⟨_, one.trans others⟩

namespace Layer

variable {layer : Layer}

/-- Wherever the code of a tame probe runs, it registers nothing. -/
theorem fireWith_adds (obeys : layer.probe.Obeys tame) (type : ValueType)
    (rewrite : MethodRewrite) :
    ∃ nodes, Adds (Label.Since rewrite) rewrite (layer.fireWith type rewrite) nodes [] [] := by
  -- The code obeys the rule whatever event has come, so any but the last one will do.
  have served : Served (tame (.sizes 0 0) rewrite) rewrite (layer.fireWith type rewrite) :=
    fireWith_served permits_tame obeys type (.refl rewrite)
  exact served.adds (fun ⟨_, _, last⟩ => nomatch last) (Nat.le_refl _)

/-- An event on its way through the layers, before the end of the method. -/
theorem stepAll_adds {event : MethodEvent} (calm : ¬ event.IsMaxs) (goesOn : event ≠ .finish)
    {layers : List Layer} (obey : ∀ layer ∈ layers, layer.probe.Obeys tame)
    (rewrite : MethodRewrite) : ∃ nodes,
    Adds (fun label => label.Since rewrite ∨ event.label? = some label) rewrite
      (stepAll layers event rewrite).2 nodes event.block?.toList [] := by
  obtain ⟨reached, into, out⟩ := stepAll_served permits_tame layers rewrite obey (.refl rewrite)
  obtain ⟨ahead, first⟩ := into.adds calm (Nat.le_refl _)
  obtain ⟨own, middle⟩ := reached.step_adds goesOn
  obtain ⟨behind, last⟩ := out.adds calm (Nat.le_trans first.labels middle.labels)
  have since {label : Label} (new : label.Since reached) : label.Since rewrite :=
    new.earlier first.labels
  have whole := (first.mono fun _ => .inl).trans
    ((middle.mono fun label => Or.imp_left since).trans (last.mono fun _ => .inl))
  rw [List.nil_append, List.append_nil] at whole
  exact ⟨_, whole⟩

/-- **Before its end a method is appended to**: its own blocks, and code with its own labels and
new ones. -/
theorem runAll_adds : ∀ {events : List MethodEvent} {layers : List Layer},
    (∀ event ∈ events, ¬ event.IsMaxs ∧ event ≠ .finish) →
    (∀ layer ∈ layers, layer.probe.Obeys tame) → ∀ rewrite : MethodRewrite, ∃ nodes,
    Adds (fun label => label.Since rewrite ∨ label ∈ events.filterMap MethodEvent.label?) rewrite
      (runAll layers events rewrite).2 nodes (events.filterMap MethodEvent.block?) []
  | [], _, _, _, rewrite => ⟨[], .refl rewrite⟩
  | event :: events, layers, plain, obey, rewrite => by
    obtain ⟨calm, goesOn⟩ := plain event List.mem_cons_self
    obtain ⟨first, one⟩ := stepAll_adds calm goesOn obey rewrite
    obtain ⟨second, others⟩ := runAll_adds
      (fun other among => plain other (List.mem_cons_of_mem _ among))
      (forall_stepAll event rewrite obey) (stepAll layers event rewrite).2
    have early := one.mono fun label known =>
      (known.imp_right fun own => List.mem_filterMap.2 ⟨event, List.mem_cons_self, own⟩ :
        label.Since rewrite ∨ label ∈ (event :: events).filterMap MethodEvent.label?)
    have late := others.mono fun label known =>
      (known.imp (·.earlier one.labels) fun own => by
        obtain ⟨other, among, same⟩ := List.mem_filterMap.1 own
        exact List.mem_filterMap.2 ⟨other, List.mem_cons_of_mem _ among, same⟩ :
        label.Since rewrite ∨ label ∈ (event :: events).filterMap MethodEvent.label?)
    have blocks : (event :: events).filterMap MethodEvent.block? =
        event.block?.toList ++ events.filterMap MethodEvent.block? := by
      rw [List.filterMap_cons]
      cases event.block? <;> rfl
    rw [blocks]
    exact ⟨first ++ second, early.trans late⟩

end Layer

end ClassWeave
