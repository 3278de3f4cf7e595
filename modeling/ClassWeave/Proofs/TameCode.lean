/-
# ClassWeave.Proofs.TameCode -- requests that stay among their own labels

Code that comes as a snippet names no label but those it was handed out
(`Injection.Request.Tame`), and so do the layers.  Hence nothing is known of a label before
it is handed out: no jump carries a frame to it, and no block has it for its handler
(`MethodRewrite.Aware`).

Between two instructions such code moves nothing.  It may place its labels and ask for
frames at them, but what falls through stays as it is, and so the frames that are
recorded all say the same (`MethodRewrite.Calm`).  Once an instruction has been written,
frames are pinned behind it (`MethodRewrite.Moved`).
-/
import ClassWeave.Proofs.InstructionRoundTrip
import ClassWeave.Proofs.RewriteTrace

set_option autoImplicit false

namespace ClassWeave

/-! ## The rule -/

def MethodEvent.IsMaxs (event : MethodEvent) : Prop :=
  ∃ maxStack maxLocals, event = .maxs maxStack maxLocals

/-- Labels of the request were handed out since the event came.  Events of injected code are code and
its lines; frames keep the stack, and handlers are for the end. -/
def Injection.Request.Tame (came : MethodEvent) (start rewrite : MethodRewrite) :
    Injection.Request → Prop
  | event (.label placed) => placed.MadeSince start rewrite
  | event (.line _ _) => True
  | event (.insn own) => ∀ target ∈ own.targets, target.MadeSince start rewrite
  | event _ => False
  | frame pinned wanted => pinned.MadeSince start rewrite ∧ (wanted = .same ∨ came.IsMaxs)
  | handler block => came.IsMaxs ∧ block.handler.MadeSince start rewrite
  | label | slot _ | store _ | fault _ => True

def tame : EventRule := fun event start rewrite request => request.Tame event start rewrite

theorem permits_tame : Permits tame where
  label _ _ _ := trivial
  simple _ _ _ _ := List.forall_mem_nil _
  place _ _ _ _ made := made
  store _ _ _ _ := trivial
  handler maxStack maxLocals _ _ _ made := ⟨⟨maxStack, maxLocals, rfl⟩, made⟩
  caught maxStack maxLocals _ _ _ made := ⟨made, .inr ⟨maxStack, maxLocals, rfl⟩⟩
  fault _ _ _ _ := trivial

theorem Label.MadeSince.isFresh {start rewrite : MethodRewrite} {label : Label}
    (made : label.MadeSince start rewrite) : label.isFresh = true := by
  have low := made.1
  simp only [Label.isFresh, decide_eq_true_eq]
  omega

theorem Label.MadeSince.later {start rewrite after : MethodRewrite} {label : Label}
    (made : label.MadeSince start rewrite) (labels : rewrite.nextLabel ≤ after.nextLabel) :
    label.MadeSince start after := by
  have high := made.2
  exact ⟨made.1, by omega⟩

theorem Injection.Request.Tame.harmless {came : MethodEvent} {start rewrite : MethodRewrite} :
    ∀ {request : Injection.Request}, request.Tame came start rewrite → request.Harmless
  | event (.label _), fine => Label.MadeSince.isFresh fine
  | event .finish, fine => fine
  | event (.line _ _), _ | event (.insn _), _ | event (.sizes _ _), _ | event (.frame _ _), _
  | event (.tryBlock _), _ | event (.variable _), _ | event (.maxs _ _), _ | frame _ _, _
  | handler _, _ | label, _ | slot _, _ | store _, _ | fault _, _ => trivial

section Rules

variable {allowed weaker : EventRule}

theorem Requests.mono {rule other : Rule} (implies : ∀ rewrite request, rule rewrite request →
      other rewrite request) {before after : MethodRewrite} {requests : List Injection.Request}
    (run : Requests rule before requests after) : Requests other before requests after := by
  induction run with
  | done rewrite => exact .done rewrite
  | more permitted _ ih => exact .more (implies _ _ permitted) ih

theorem Weaves.mono (implies : ∀ event start rewrite request,
      allowed event start rewrite request → weaker event start rewrite request)
    {events : List MethodEvent} {before after : MethodRewrite} {actions : List Action}
    (run : Weaves allowed events before actions after) :
    Weaves weaker events before actions after := by
  induction run with
  | done rewrite => exact .done rewrite
  | event into out _ ih =>
    exact .event (into.mono (implies _ _)) (out.mono (implies _ _)) ih

theorem Weaves.harmless_of_tame {events : List MethodEvent} {before after : MethodRewrite}
    {actions : List Action} (run : Weaves tame events before actions after) :
    Weaves harmless events before actions after :=
  run.mono fun _ _ _ _ fine => fine.harmless

end Rules

/-! ## Snippets are tame -/

theorem Instruction.targets_relabel (rename : Label → Label) (insn : Instruction) :
    (insn.relabel rename).targets = insn.targets.map rename := by
  cases insn with
  | tableSwitch => simp [relabel, targets]
  | lookupSwitch => simp [relabel, targets, Function.comp_def]
  | _ => rfl

namespace Snippet

variable {event : MethodEvent} {start : MethodRewrite}

theorem replay_tame {targets : List Label} {renamed : List (Label × Label)} :
    ∀ {code : Snippet} (rewrite : MethodRewrite),
    (∀ node ∈ code, ∀ label ∈ nodeLabels node, (rename renamed label).MadeSince start rewrite) →
    (replay targets renamed code).Obeys (tame event start) rewrite
  | [], _, _ => trivial
  | .label label :: rest, rewrite, made => by
    have own := made _ List.mem_cons_self label (List.mem_singleton.2 rfl)
    have placed := rewrite.inject_follows (.label (rename renamed label))
    -- What the rest of the snippet names has been handed out as well by then.
    have others (after : MethodRewrite) (labels : rewrite.nextLabel ≤ after.nextLabel) :
        (replay targets renamed rest).Obeys (tame event start) after :=
      replay_tame after fun node among other known =>
        (made node (List.mem_cons_of_mem _ among) other known).later labels
    rw [replay]
    refine ⟨own, ?_⟩
    split
    · refine ⟨⟨own.later placed.labels, .inl rfl⟩, ?_⟩
      have asked := MethodRewrite.perform_follows
        (rewrite.inject (.label (rename renamed label))) (.frame (rename renamed label) .same)
      cases ((rewrite.inject (.label (rename renamed label))).askFrame
          (rename renamed label) .same).1 with
      | ok => exact others _ (placed.trans asked).labels
      | error => trivial
    · exact others _ placed.labels
  | .line number begin :: rest, rewrite, made =>
    ⟨trivial, replay_tame _ fun node among other known =>
      (made node (List.mem_cons_of_mem _ among) other known).later
        (rewrite.inject_follows _).labels⟩
  | .insn insn :: rest, rewrite, made => by
    refine ⟨?_, replay_tame _ fun node among other known =>
      (made node (List.mem_cons_of_mem _ among) other known).later
        (rewrite.inject_follows _).labels⟩
    intro target known
    rw [Instruction.targets_normal, Instruction.targets_relabel] at known
    obtain ⟨label, own, rfl⟩ := List.mem_map.1 known
    exact made _ List.mem_cons_self label own

theorem withFresh_tame {next : List (Label × Label) → Injection} :
    ∀ (labels : List Label) {renamed : List (Label × Label)} (rewrite : MethodRewrite),
    start.Follows rewrite → (∀ pair ∈ renamed, pair.2.MadeSince start rewrite) →
    (∀ (found : List (Label × Label)) (after : MethodRewrite),
      (∀ pair ∈ found, pair.2.MadeSince start after) →
      found.map Prod.fst = renamed.map Prod.fst ++ labels →
      (next found).Obeys (tame event start) after) →
    (withFresh renamed next labels).Obeys (tame event start) rewrite
  | [], renamed, rewrite, _, made, goesOn => goesOn renamed rewrite made (List.append_nil _).symm
  | label :: labels, renamed, rewrite, follows, made, goesOn => by
    have handed : rewrite.Follows rewrite.freshLabel.2 := rewrite.perform_follows .label
    refine ⟨trivial, withFresh_tame labels _ (follows.trans handed) ?_
      fun found after all names => goesOn found after all ?_⟩
    · intro pair among
      rcases List.mem_append.1 among with old | new
      · exact (made pair old).later handed.labels
      · obtain rfl := List.mem_singleton.1 new
        exact ⟨Nat.add_le_add_left follows.labels _, Nat.lt_succ_self _⟩
    · rw [names, List.map_append, List.append_assoc]
      rfl

theorem probeCode_obeys {probe : Probe} {code : Snippet} (same : probe.code = probeCode code) :
    probe.Obeys tame := by
  intro event start rewrite site follows
  rw [same]
  refine withFresh_tame code.labels rewrite follows (List.forall_mem_nil _)
    fun renamed after made names => ?_
  refine replay_tame after fun node among label own => ?_
  have known : label ∈ renamed.map Prod.fst := by
    rw [names, List.map_nil, List.nil_append, labels, List.mem_eraseDups, List.mem_flatMap]
    exact ⟨node, among, own⟩
  obtain ⟨pair, within, named⟩ := rename_mem known
  rw [named]
  exact made pair within

end Snippet

/-! ## What is known of labels that are not placed -/

namespace MethodRewrite

/-- A jump carries a frame to the label, or some block has it for its handler. -/
def Awaits (rewrite : MethodRewrite) (label : Label) : Prop :=
  rewrite.saved.contains label = true ∨ rewrite.ranges.contains label = true

/-- The part of a rewrite that tells which labels are awaited. -/
def links (rewrite : MethodRewrite) :
    Std.TreeMap Label Frame × Std.TreeMap Label (Array TryBlock) :=
  (rewrite.saved, rewrite.ranges)

theorem Awaits.congr {before after : MethodRewrite} (same : after.links = before.links)
    {label : Label} (awaits : after.Awaits label) : before.Awaits label := by
  have saved : after.saved = before.saved := congrArg Prod.fst same
  have ranges : after.ranges = before.ranges := congrArg Prod.snd same
  rwa [Awaits, saved, ranges] at awaits

variable (rewrite : MethodRewrite)

@[simp] theorem links_endPrefix : rewrite.endPrefix.links = rewrite.links := by
  unfold endPrefix
  split <;> rfl

@[simp] theorem links_simulate (insn : Instruction) (position : Label) :
    (rewrite.simulate insn position).links = rewrite.links := by
  unfold simulate
  split
  · split <;> rfl
  · rfl

theorem links_placeLabel (label : Label) :
    (rewrite.placeLabel label).links = (rewrite.saved.erase label, rewrite.ranges) := by
  unfold placeLabel
  simp only
  split <;> rfl

theorem Awaits.of_placeLabel {label other : Label}
    (awaits : (rewrite.placeLabel label).Awaits other) : rewrite.Awaits other := by
  have saved : (rewrite.placeLabel label).saved = rewrite.saved.erase label :=
    congrArg Prod.fst (rewrite.links_placeLabel label)
  have ranges : (rewrite.placeLabel label).ranges = rewrite.ranges :=
    congrArg Prod.snd (rewrite.links_placeLabel label)
  rw [Awaits, saved, ranges, Std.TreeMap.contains_erase, Bool.and_eq_true] at awaits
  exact awaits.imp_left And.right

theorem Awaits.of_labelHere {label : Label} (awaits : rewrite.labelHere.2.Awaits label) :
    rewrite.Awaits label := by
  cases group : rewrite.group with
  | cons here others =>
    rwa [labelHere_of_group rewrite group] at awaits
  | nil =>
    rw [labelHere_of_empty rewrite group] at awaits
    exact awaits.of_placeLabel

theorem Awaits.of_position {insn : Instruction} {label : Label}
    (awaits : (rewrite.position insn).2.Awaits label) : rewrite.Awaits label := by
  unfold position at awaits
  split at awaits
  · exact awaits
  · split at awaits
    · exact awaits.of_labelHere
    · exact awaits

theorem Awaits.of_carry {target label : Label} (awaits : (rewrite.carry target).Awaits label) :
    rewrite.Awaits label ∨ label = target := by
  have inserted {frame : Frame}
      (known : (rewrite.saved.insert target frame).contains label = true ∨
        rewrite.ranges.contains label = true) : rewrite.Awaits label ∨ label = target := by
    rw [Std.TreeMap.contains_insert, Bool.or_eq_true, beq_iff_eq, Std.compare_eq_iff_eq] at known
    rcases known with (same | old) | handler
    · exact .inr same.symm
    · exact .inl (.inl old)
    · exact .inl (.inr handler)
  unfold carry at awaits
  split at awaits
  · exact .inl awaits
  · split at awaits
    · exact inserted awaits
    · exact inserted awaits

theorem Awaits.of_foldl_carry : ∀ {targets : List Label} {rewrite : MethodRewrite} {label : Label},
    (targets.foldl carry rewrite).Awaits label → rewrite.Awaits label ∨ label ∈ targets
  | [], _, _, awaits => .inl awaits
  | target :: targets, rewrite, label, awaits => by
    have onwards : (targets.foldl carry (rewrite.carry target)).Awaits label := awaits
    rcases Awaits.of_foldl_carry onwards with one | later
    · rcases Awaits.of_carry rewrite one with old | same
      · exact .inl old
      · exact .inr (same ▸ List.mem_cons_self)
    · exact .inr (List.mem_cons_of_mem _ later)

theorem Awaits.of_leave {insn : Instruction} {label : Label}
    (awaits : (rewrite.leave insn).Awaits label) :
    rewrite.Awaits label ∨ label ∈ insn.targets := by
  have carried : (if rewrite.reachable then insn.targets.foldl carry rewrite else rewrite).Awaits
      label → rewrite.Awaits label ∨ label ∈ insn.targets := by
    intro known
    split at known
    · exact Awaits.of_foldl_carry known
    · exact .inl known
  unfold leave at awaits
  simp only at awaits
  split at awaits <;> split at awaits <;> first
    | exact carried awaits
    | exact carried (awaits.congr (links_endPrefix _))

theorem Awaits.of_instruction {insn : Instruction} {label : Label}
    (awaits : (rewrite.instruction insn).Awaits label) :
    rewrite.Awaits label ∨ label ∈ insn.targets := by
  unfold instruction at awaits
  split at awaits
  · exact .inl awaits
  · rcases Awaits.of_leave _ awaits with old | target
    · exact .inl (Awaits.of_position rewrite (old.congr (links_simulate _ _ _)))
    · exact .inr target

theorem Awaits.of_addRange {block : TryBlock} {label : Label}
    (awaits : (rewrite.addRange block).Awaits label) :
    rewrite.Awaits label ∨ label = block.handler := by
  rcases awaits with saved | handler
  · exact .inl (.inl saved)
  · rw [addRange, Std.TreeMap.contains_alter] at handler
    split at handler
    · rename_i same
      exact .inr (Std.compare_eq_iff_eq.1 same).symm
    · exact .inl (.inr handler)

theorem links_requestFrame (label : Label) (wanted : FrameRequest) :
    (rewrite.requestFrame label wanted).2.links = rewrite.links := by
  unfold requestFrame
  split
  · rfl
  · simp only
    split
    · rfl
    · split
      · rfl
      · rfl
      · exact links_endPrefix _

theorem links_keepFault {α : Type} (answer : Except InstrumentError α × MethodRewrite) :
    (keepFault answer).2.links = answer.2.links := by
  obtain ⟨_ | _, after⟩ := answer <;> rfl

theorem links_askFrame (label : Label) (wanted : FrameRequest) :
    (rewrite.askFrame label wanted).2.links = rewrite.links :=
  (links_keepFault _).trans (rewrite.links_requestFrame label wanted)

theorem links_allocate (type : ValueType) : (rewrite.allocate type).2.links = rewrite.links := by
  unfold allocate
  simp only
  split <;> rfl

end MethodRewrite

/-- The labels that an event makes known before they are placed. -/
def MethodEvent.ahead : MethodEvent → List Label
  | .insn own => own.targets
  | .tryBlock block => [block.handler]
  | _ => []

namespace MethodRewrite

variable (rewrite : MethodRewrite)

theorem Awaits.of_step {event : MethodEvent} {label : Label}
    (awaits : (rewrite.step event).Awaits label) : rewrite.Awaits label ∨ label ∈ event.ahead := by
  cases event with
  | sizes | line | «variable» | maxs => exact .inl awaits
  | frame locals stack =>
    left
    show rewrite.Awaits label
    have awaits' : (rewrite.originalFrame locals stack).Awaits label := awaits
    unfold originalFrame at awaits'
    split at awaits'
    · exact awaits'
    · exact Awaits.of_labelHere rewrite (awaits'.congr (links_endPrefix _))
  | label place => exact .inl (Awaits.of_placeLabel rewrite awaits)
  | tryBlock block =>
    have known := Awaits.of_addRange { rewrite with body := rewrite.body.add (.tryBlock block) } awaits
    exact known.imp_right List.mem_singleton.2
  | insn insn => exact Awaits.of_instruction rewrite awaits
  | finish =>
    left
    have awaits' : rewrite.close.Awaits label := awaits
    unfold close at awaits'
    split at awaits'
    · exact awaits'
    · split at awaits'
      · exact awaits'
      · simp only at awaits'
        split at awaits' <;> exact awaits'

/-- Every label that something is known of has been handed out, or stands for an offset. -/
def Aware (rewrite : MethodRewrite) : Prop :=
  ∀ label, rewrite.Awaits label → label.id < Label.firstFresh + rewrite.nextLabel

variable {rewrite}

theorem Aware.step (aware : rewrite.Aware) {event : MethodEvent}
    (old : ∀ label ∈ event.ahead, label.id < Label.firstFresh) : (rewrite.step event).Aware := by
  intro label awaits
  have labels := (rewrite.step_follows event).labels
  rcases Awaits.of_step rewrite awaits with known | ahead
  · have bound := aware label known
    omega
  · have bound := old label ahead
    omega

theorem Aware.perform (aware : rewrite.Aware) {came : MethodEvent} {start : MethodRewrite}
    {request : Injection.Request} (fine : request.Tame came start rewrite) :
    (rewrite.perform request).Aware := by
  intro label awaits
  have labels := (rewrite.perform_follows request).labels
  -- A label is awaited from before, or the request names it and was made since the start.
  have earlier (known : rewrite.Awaits label) :
      label.id < Label.firstFresh + (rewrite.perform request).nextLabel := by
    have bound := aware label known
    omega
  have made (given : label.MadeSince start rewrite) :
      label.id < Label.firstFresh + (rewrite.perform request).nextLabel := by
    have bound := given.2
    omega
  cases request with
  | label => exact earlier awaits
  | event event =>
    rcases Awaits.of_step { rewrite with injected := true } awaits with known | ahead
    · exact earlier known
    · cases event with
      | insn insn => exact made (fine label ahead)
      | tryBlock => exact fine.elim
      | _ => cases ahead
  | slot type => exact earlier (awaits.congr (links_allocate rewrite type))
  | store type =>
    have stored : (rewrite.storeNew type).2.Awaits label := awaits
    rw [storeNew_eq] at stored
    split at stored
    · rcases Awaits.of_instruction _ stored with known | target
      · have known : (rewrite.allocate type).2.Awaits label := known
        exact earlier (known.congr (links_allocate rewrite type))
      · cases target
    · exact earlier (stored.congr (links_allocate rewrite type))
  | handler block =>
    have added : (rewrite.addHandler block).2.Awaits label := awaits
    unfold addHandler at added
    simp only at added
    split at added
    · rcases Awaits.of_addRange _ added with known | same
      · exact earlier known
      · exact made (same ▸ fine.2)
    · exact earlier added
  | frame pinned wanted =>
    have asked : (rewrite.askFrame pinned wanted).2.Awaits label := awaits
    exact earlier (asked.congr (links_askFrame rewrite pinned wanted))
  | fault cause => exact earlier awaits

end MethodRewrite

theorem Requests.aware {came : MethodEvent} {start before after : MethodRewrite}
    {requests : List Injection.Request} (run : Requests (tame came start) before requests after)
    (aware : before.Aware) : after.Aware := by
  induction run with
  | done => exact aware
  | more permitted _ ih => exact ih (aware.perform permitted)

theorem Weaves.aware {events : List MethodEvent} {before after : MethodRewrite}
    {actions : List Action} (run : Weaves tame events before actions after)
    (old : ∀ event ∈ events, ∀ label ∈ event.ahead, label.id < Label.firstFresh)
    (aware : before.Aware) : after.Aware := by
  induction run with
  | done => exact aware
  | event into out _ ih =>
    refine ih (fun other among => old other (List.mem_cons_of_mem _ among)) (out.aware ?_)
    exact (into.aware aware).step (old _ List.mem_cons_self)

end ClassWeave
