/-
# ClassWeave.Proofs.HandedLabels -- every label that comes up while a method is rewritten

A label is new when injected code asks for one, and when the rewrite needs one at a place
where none stands: it makes one for itself then and places it (`MethodRewrite.makes`).
Both count on from the same number (`MethodRewrite.handed_counts`), so over a whole run no
label comes up twice (`MethodRewrite.handed_nodup`).

The labels that the rewrite makes are all that gets into the code unasked
(`MethodRewrite.step_code`).
-/
import ClassWeave.Proofs.FirstFaults

set_option autoImplicit false

namespace ClassWeave

/-! ## Labels in a row -/

namespace Label

/-- So many new labels, from the one of a number on. -/
def fresh (first count : Nat) : List Label :=
  (List.range' first count).map fun number => ⟨firstFresh + number⟩

variable {first count : Nat}

@[simp] theorem length_fresh : (fresh first count).length = count := by simp [fresh]

theorem fresh_append (more : Nat) :
    fresh first (count + more) = fresh first count ++ fresh (first + count) more := by
  simp [fresh, ← List.range'_append_1]

theorem fresh_nodup : (fresh first count).Nodup :=
  List.pairwise_map.2 ((List.pairwise_lt_range' 1).imp fun less same =>
    Nat.ne_of_lt less (Nat.add_left_cancel (congrArg Label.id same)))

theorem isFresh_of_mem_fresh {label : Label} (among : label ∈ fresh first count) :
    label.isFresh = true := by
  obtain ⟨number, _, rfl⟩ := List.mem_map.1 among
  exact decide_eq_true (Nat.le_add_right _ _)

end Label

namespace MethodRewrite

/-! ## What a single action hands out -/

/-- The label that is made if none stands here. -/
def makesHere (rewrite : MethodRewrite) : List Label :=
  match rewrite.group with
  | [] => [rewrite.freshLabel.1]
  | _ :: _ => []

/-- The label that the rewrite makes for a frame of the method, or for the place of a `new`. -/
def eventMakes (rewrite : MethodRewrite) : MethodEvent → List Label
  | .frame _ _ => if rewrite.frameRequestedHere then [] else rewrite.makesHere
  | .insn insn =>
    if rewrite.ledger.phase = .open ∧ insn.opcode = Opcode.new then rewrite.makesHere else []
  | _ => []

/-- For what injected code writes labels are made just the same. -/
@[simp] theorem eventMakes_injected (rewrite : MethodRewrite) (event : MethodEvent) :
    eventMakes { rewrite with injected := true } event = rewrite.eventMakes event := by
  cases event <;> rfl

/-- The label that the rewrite makes for itself. -/
def makes (rewrite : MethodRewrite) : Action → List Label
  | .own event | .request (.event event) => rewrite.eventMakes event
  | _ => []

/-- The label that comes up, because it was asked for or because it was made. -/
def hands (rewrite : MethodRewrite) : Action → List Label
  | .request .label => [rewrite.freshLabel.1]
  | action => rewrite.makes action

/-- What comes of the actions of a run, one after the other. -/
def gather {α : Type} (each : MethodRewrite → Action → List α) :
    MethodRewrite → List Action → List α
  | _, [] => []
  | rewrite, action :: rest => each rewrite action ++ gather each (rewrite.act action) rest

/-- All labels that come up in a run. -/
def handed : MethodRewrite → List Action → List Label := gather hands

/-- The labels that the rewrite makes for itself in a run. -/
def made : MethodRewrite → List Action → List Label := gather makes

theorem gather_append {α : Type} (each : MethodRewrite → Action → List α)
    (early late : List Action) :
    ∀ rewrite : MethodRewrite, gather each rewrite (early ++ late) =
      gather each rewrite early ++ gather each (early.foldl act rewrite) late := by
  induction early with
  | nil => exact fun _ => rfl
  | cons action early ih =>
    intro rewrite
    rw [List.cons_append, gather, ih, gather, List.append_assoc, List.foldl_cons]

theorem handed_append (rewrite : MethodRewrite) (early late : List Action) :
    rewrite.handed (early ++ late) =
      rewrite.handed early ++ (early.foldl act rewrite).handed late :=
  gather_append hands early late rewrite

theorem made_append (rewrite : MethodRewrite) (early late : List Action) :
    rewrite.made (early ++ late) = rewrite.made early ++ (early.foldl act rewrite).made late :=
  gather_append makes early late rewrite

/-! ## Labels are counted -/

/-- The labels are the next ones, and behind them the count goes on. -/
structure Counts (before after : MethodRewrite) (labels : List Label) : Prop where
  row : labels = Label.fresh before.nextLabel labels.length
  next : after.nextLabel = before.nextLabel + labels.length

namespace Counts

variable {before middle after : MethodRewrite} {labels others : List Label}

theorem quiet (same : after.nextLabel = before.nextLabel) : Counts before after [] := ⟨rfl, same⟩

theorem trans (first : Counts before middle labels) (second : Counts middle after others) :
    Counts before after (labels ++ others) := by
  refine ⟨?_, ?_⟩
  · rw [List.length_append, Label.fresh_append, ← first.next, ← first.row, ← second.row]
  · rw [second.next, first.next, List.length_append, Nat.add_assoc]

theorem of_next (counts : Counts before middle labels)
    (same : after.nextLabel = middle.nextLabel) : Counts before after labels :=
  ⟨counts.row, same.trans counts.next⟩

end Counts

theorem nextLabel_of_outline {after outline : MethodRewrite} (same : after.outline = outline) :
    after.nextLabel = outline.nextLabel := by
  subst same
  rfl

theorem code_of_outline {after outline : MethodRewrite} (same : after.outline = outline) :
    after.body.code = outline.body.code := by
  subst same
  rfl

variable (rewrite : MethodRewrite)

theorem nextLabel_placeLabel (label : Label) :
    (rewrite.placeLabel label).nextLabel = rewrite.nextLabel :=
  (nextLabel_of_outline (rewrite.outline_placeLabel label)).trans rfl

theorem freshLabel_counts : Counts rewrite rewrite.freshLabel.2 [rewrite.freshLabel.1] := ⟨rfl, rfl⟩

theorem labelHere_counts : Counts rewrite rewrite.labelHere.2 rewrite.makesHere := by
  unfold makesHere
  cases group : rewrite.group with
  | cons label others =>
    rw [labelHere_of_group rewrite group]
    exact .quiet rfl
  | nil =>
    rw [labelHere_of_empty rewrite group]
    exact rewrite.freshLabel_counts.of_next (nextLabel_placeLabel _ _)

/-- An instruction makes a label for its place only before a `new`, and none where one stands. -/
theorem position_cases (insn : Instruction) (taken : rewrite.ledger.phase = .open) :
    ((rewrite.position insn).2 = rewrite ∧ rewrite.eventMakes (.insn insn) = []) ∨
      ((rewrite.position insn).2 = rewrite.labelHere.2 ∧
        rewrite.eventMakes (.insn insn) = rewrite.makesHere) := by
  unfold position eventMakes
  simp only [taken, true_and]
  cases group : rewrite.group with
  | cons label others =>
    have none_ : rewrite.makesHere = [] := by
      unfold makesHere
      rw [group]
    exact .inl ⟨rfl, by rw [none_, ite_self]⟩
  | nil =>
    by_cases creates : insn.opcode = Opcode.new
    · exact .inr ⟨by rw [if_pos creates], if_pos creates⟩
    · exact .inl ⟨by rw [if_neg creates], if_neg creates⟩

theorem instruction_counts (insn : Instruction) :
    Counts rewrite (rewrite.instruction insn) (rewrite.eventMakes (.insn insn)) := by
  by_cases taken : rewrite.ledger.phase = .open
  · have kept : (rewrite.instruction insn).nextLabel = (rewrite.position insn).2.nextLabel :=
      (nextLabel_of_outline (rewrite.outline_instruction insn taken)).trans rfl
    refine Counts.of_next ?_ kept
    rcases rewrite.position_cases insn taken with ⟨place, makes⟩ | ⟨place, makes⟩ <;>
      rw [place, makes]
    · exact .quiet rfl
    · exact rewrite.labelHere_counts
  · have makes : rewrite.eventMakes (.insn insn) = [] := if_neg fun both => taken both.1
    unfold instruction
    rw [if_pos taken, makes]
    exact .quiet rfl

theorem originalFrame_counts (locals stack : List FrameType) :
    Counts rewrite (rewrite.originalFrame locals stack)
      (rewrite.eventMakes (.frame locals stack)) := by
  unfold eventMakes
  rcases rewrite.outline_originalFrame locals stack with ⟨asked, same⟩ | ⟨asked, frame, _, same⟩
  · rw [asked, same]
    exact .quiet rfl
  · rw [asked]
    exact rewrite.labelHere_counts.of_next ((nextLabel_of_outline same).trans rfl)

/-- The end of a method neither makes labels nor writes anything. -/
theorem close_still : rewrite.close.nextLabel = rewrite.nextLabel ∧
    rewrite.close.body.code = rewrite.body.code := by
  unfold close
  split
  · exact ⟨rfl, rfl⟩
  · split
    · exact ⟨rfl, rfl⟩
    · simp only
      split <;> exact ⟨rfl, rfl⟩

theorem step_counts (event : MethodEvent) :
    Counts rewrite (rewrite.step event) (rewrite.eventMakes event) := by
  cases event with
  | frame locals stack => exact rewrite.originalFrame_counts locals stack
  | label label => exact .quiet (rewrite.nextLabel_placeLabel label)
  | insn insn => exact rewrite.instruction_counts insn
  | finish => exact .quiet rewrite.close_still.1
  | sizes | line | tryBlock | «variable» | maxs => exact .quiet rfl

theorem nextLabel_allocate (type : ValueType) :
    (rewrite.allocate type).2.nextLabel = rewrite.nextLabel :=
  (nextLabel_of_outline (rewrite.outline_allocate type)).trans rfl

/-- No value is stored by a `new`. -/
theorem storeOpcode_ne_new (type : ValueType) : type.storeOpcode ≠ Opcode.new := by
  unfold ValueType.storeOpcode
  split <;> decide

theorem nextLabel_storeNew (type : ValueType) :
    (rewrite.storeNew type).2.nextLabel = rewrite.nextLabel := by
  rw [storeNew_eq]
  split
  · rename_i slot _
    let store : Instruction := .var type.storeOpcode slot
    let marked : MethodRewrite := { (rewrite.allocate type).2 with injected := true }
    have counts := (marked.instruction_counts store).next
    have none_ : marked.eventMakes (.insn store) = [] :=
      if_neg fun both => storeOpcode_ne_new type both.2
    rw [none_] at counts
    exact counts.trans (rewrite.nextLabel_allocate type)
  · exact rewrite.nextLabel_allocate type

/-- To ask for a frame neither makes labels nor writes anything. -/
theorem askFrame_still (label : Label) (wanted : FrameRequest) :
    (rewrite.askFrame label wanted).2.nextLabel = rewrite.nextLabel ∧
      (rewrite.askFrame label wanted).2.body.code = rewrite.body.code := by
  have asked := rewrite.outline_askFrame label wanted
  rw [nextLabel_of_outline asked, code_of_outline asked]
  rcases rewrite.outline_requestFrame label wanted with same | same | ⟨_, _, _, _, _, same⟩
  all_goals
    rw [same]
    exact ⟨rfl, rfl⟩

theorem act_counts (action : Action) :
    Counts rewrite (rewrite.act action) (rewrite.hands action) := by
  cases action with
  | own event => exact rewrite.step_counts event
  | request request =>
    cases request with
    | label => exact rewrite.freshLabel_counts
    | event event =>
      have counts := step_counts { rewrite with injected := true } event
      rw [eventMakes_injected] at counts
      exact ⟨counts.row, counts.next⟩
    | slot type => exact .quiet (rewrite.nextLabel_allocate type)
    | store type => exact .quiet (rewrite.nextLabel_storeNew type)
    | handler block =>
      exact .quiet ((nextLabel_of_outline (rewrite.outline_addHandler block)).trans rfl)
    | frame label wanted => exact .quiet (rewrite.askFrame_still label wanted).1
    | fault cause => exact .quiet rfl

/-- Over a run the labels come up in a row. -/
theorem handed_counts : ∀ (actions : List Action) (rewrite : MethodRewrite),
    Counts rewrite (actions.foldl act rewrite) (rewrite.handed actions)
  | [], _ => .quiet rfl
  | action :: rest, rewrite =>
    (rewrite.act_counts action).trans (handed_counts rest (rewrite.act action))

/-- No label comes up twice. -/
theorem handed_nodup (actions : List Action) : (rewrite.handed actions).Nodup := by
  rw [(handed_counts actions rewrite).row]
  exact Label.fresh_nodup

end MethodRewrite

/-! ## What gets into the code -/

/-- The node that an event writes. -/
def MethodEvent.nodes : MethodEvent → List Node
  | .label place => [.label place]
  | .line number start => [.line number start]
  | .insn own => [.insn own.normal]
  | _ => []

namespace MethodRewrite

variable (rewrite : MethodRewrite)

theorem code_labelHere :
    rewrite.labelHere.2.body.code = rewrite.body.code ++ rewrite.makesHere.map .label := by
  unfold makesHere
  cases group : rewrite.group with
  | cons label others =>
    rw [labelHere_of_group rewrite group]
    exact (List.append_nil _).symm
  | nil =>
    rw [labelHere_of_empty rewrite group]
    exact (placeLabel_gains rewrite.freshLabel.2 rewrite.freshLabel.1).code

theorem code_instruction (insn : Instruction) (taken : rewrite.ledger.phase = .open) :
    (rewrite.instruction insn).body.code = rewrite.body.code ++
      ((rewrite.eventMakes (.insn insn)).map .label ++ [.insn insn.normal]) := by
  have placed : (rewrite.position insn).2.body.code =
      rewrite.body.code ++ (rewrite.eventMakes (.insn insn)).map .label := by
    rcases rewrite.position_cases insn taken with ⟨place, makes⟩ | ⟨place, makes⟩ <;>
      rw [place, makes]
    · exact (List.append_nil _).symm
    · exact rewrite.code_labelHere
  have put : (rewrite.instruction insn).body.code =
      ((rewrite.position insn).2.putInstruction insn).body.code :=
    (code_of_outline (rewrite.outline_instruction insn taken)).trans rfl
  rw [put, ((rewrite.position insn).2.putInstruction_gains insn).code, placed, List.append_assoc]

theorem code_originalFrame (locals stack : List FrameType) :
    (rewrite.originalFrame locals stack).body.code =
      rewrite.body.code ++ (rewrite.eventMakes (.frame locals stack)).map .label := by
  unfold eventMakes
  rcases rewrite.outline_originalFrame locals stack with ⟨asked, same⟩ | ⟨asked, frame, _, same⟩
  · rw [asked, same]
    exact (List.append_nil _).symm
  · rw [asked]
    have code : (rewrite.originalFrame locals stack).body.code = rewrite.labelHere.2.body.code :=
      (code_of_outline same).trans rfl
    rw [code]
    exact rewrite.code_labelHere

/-- Where nothing goes wrong, an event writes its own node, behind the label that is made for it. -/
theorem step_code {event : MethodEvent} (fine : (rewrite.step event).fault = none) :
    (rewrite.step event).body.code =
      rewrite.body.code ++ ((rewrite.eventMakes event).map .label ++ event.nodes) := by
  cases event with
  | frame locals stack =>
    show (rewrite.originalFrame locals stack).body.code = _ ++ (_ ++ [])
    rw [List.append_nil, code_originalFrame]
  | label label => exact (placeLabel_gains rewrite label).code
  | insn insn =>
    -- An instruction that comes to a closed method is not written, but that is a fault.
    have taken : rewrite.ledger.phase = .open := by
      by_contra shut
      have failed := rewrite.fault_instruction insn
      rw [show (rewrite.instruction insn).fault = none from fine, instructionTrouble,
        if_pos shut] at failed
      cases held : rewrite.fault <;> rw [held] at failed <;> cases failed
    exact rewrite.code_instruction insn taken
  | finish => exact rewrite.close_still.2.trans (List.append_nil _).symm
  | line number start =>
    simp [MethodRewrite.step, MethodBody.add, MethodBody.code, eventMakes, MethodEvent.nodes]
  | sizes | tryBlock | «variable» | maxs => exact (List.append_nil _).symm

theorem inject_code {event : MethodEvent} (fine : (rewrite.inject event).fault = none) :
    (rewrite.inject event).body.code =
      rewrite.body.code ++ ((rewrite.eventMakes event).map .label ++ event.nodes) := by
  have code := step_code { rewrite with injected := true } fine
  rwa [eventMakes_injected] at code

end MethodRewrite

end ClassWeave
