/-
# ClassWeave.Proofs.SnippetNames -- a snippet under other names

A snippet that is emitted goes under new labels, one for each of its own, in the order of
their first mention (`Snippet.naming`).  Different labels get different names, so whatever
refers to a node of the snippet refers to the same node afterwards
(`Snippet.references_naming`).

What a snippet asks for is told without its program: first its labels, then its nodes
under these, with a frame wherever one of its own jumps leads
(`Snippet.injection_requests`).  The nodes come into the code in their order, with nothing
between them but labels that the rewrite makes for itself (`Node.askings_written`).
-/
import ClassWeave.Proofs.HandedLabels
import ClassWeave.Proofs.LayerRecord
import ClassWeave.Proofs.PlacedLabels
import ClassWeave.Proofs.TameCode
import Mathlib.Data.List.Nodup

set_option autoImplicit false

namespace ClassWeave

/-! ## Labels of a snippet -/

theorem Label.nodup_eraseDups : ∀ labels : List Label, labels.eraseDups.Nodup
  | [] => .nil
  | label :: rest => by
    rw [List.eraseDups_cons, List.nodup_cons]
    refine ⟨fun among => ?_, nodup_eraseDups _⟩
    simpa using List.mem_eraseDups.1 among
termination_by labels => labels.length
decreasing_by exact Nat.lt_succ_of_le (List.length_filter_le _ _)

/-- Of neighbours that are equal one is left. -/
theorem Label.mem_eraseReps {label : Label} {labels : List Label} :
    label ∈ labels.eraseReps ↔ label ∈ labels := by
  -- The loop holds the last label apart from those it has put away, so both are in the invariant.
  have looped : ∀ (rest : List Label) (last : Label) (found : List Label),
      label ∈ List.eraseRepsBy.loop (· == ·) last rest found ↔
        label ∈ found ∨ label = last ∨ label ∈ rest := by
    intro rest
    induction rest with
    | nil => simp [List.eraseRepsBy.loop, or_comm]
    | cons next rest ih =>
      intro last found
      rw [List.eraseRepsBy.loop]
      split
      · rename_i same
        rw [ih, beq_iff_eq.1 same]
        simp
      · rw [ih]
        simp [or_assoc, or_left_comm]
  cases labels with
  | nil => rfl
  | cons first rest => exact (looped rest first []).trans (by simp)

namespace Node

def label? : Node → Option Label
  | label place => some place
  | _ => none

/-- The node with its labels renamed, as it is told. -/
def emitted (name : Label → Label) : Node → Node
  | label place => label (name place)
  | line number start => line number (name start)
  | insn own => insn (own.relabel name).normal

end Node

namespace Snippet

/-- The labels that the snippet places, in their order. -/
def placed (code : Snippet) : List Label := code.filterMap Node.label?

/-- The labels that jumps and switches of the snippet lead to. -/
def ledTo (code : Snippet) : List Label := code.instructions.flatMap Instruction.targets

/-- For each node the numbers of the nodes where the labels stand that it refers to. -/
def references (code : Snippet) : List (List Nat) :=
  code.map fun node => (nodeLabels node).map fun label => code.idxOf (.label label)

theorem mem_jumpTargets {code : Snippet} {label : Label} :
    label ∈ code.jumpTargets ↔ label ∈ code.ledTo := by
  rw [jumpTargets, Label.mem_eraseReps, List.mem_mergeSort, ledTo]

theorem mem_labels {code : Snippet} {node : Node} (among : node ∈ code) {label : Label}
    (own : label ∈ nodeLabels node) : label ∈ code.labels := by
  rw [labels, List.mem_eraseDups, List.mem_flatMap]
  exact ⟨node, among, own⟩

theorem mem_placed {code : Snippet} {label : Label} :
    label ∈ code.placed ↔ .label label ∈ code := by
  rw [placed, List.mem_filterMap]
  constructor
  · rintro ⟨node, among, own⟩
    cases node <;> cases own
    exact among
  · exact fun among => ⟨_, among, rfl⟩

theorem count_placed (code : Snippet) (label : Label) :
    code.placed.count label = code.count (.label label) := by
  unfold placed
  induction code with
  | nil => rfl
  | cons node rest ih =>
    cases node with
    | label other => simp [Node.label?, List.count_cons, ih]
    | line | insn => simpa [List.filterMap_cons, Node.label?] using ih

theorem PlacesOnce.nodup {code : Snippet} (once : code.PlacesOnce) : code.placed.Nodup :=
  List.nodup_iff_count_le_one.2 fun label => code.count_placed label ▸ once label

/-! ## New names -/

/-- The names of labels that are given new ones from some number on. -/
def naming (code : Snippet) (first : Nat) : Label → Label :=
  rename (code.labels.zip (Label.fresh first code.labels.length))

theorem map_rename_zip : ∀ {labels names : List Label}, labels.Nodup →
    labels.length = names.length → labels.map (rename (labels.zip names)) = names
  | [], [], _, _ => rfl
  | label :: labels, name :: names, distinct, same => by
    obtain ⟨apart, distinct⟩ := List.nodup_cons.1 distinct
    have others := map_rename_zip distinct (Nat.succ.inj same)
    have own : rename ((label :: labels).zip (name :: names)) label = name := by
      simp [rename]
    rw [List.map_cons, own]
    refine congrArg (name :: ·) (Eq.trans (List.map_congr_left fun other among => ?_) others)
    have differ : (other == label) = false := by
      rw [beq_eq_false_iff_ne]
      rintro rfl
      exact apart among
    simp [rename, List.lookup_cons, differ]

variable (code : Snippet) (first : Nat)

theorem map_naming : code.labels.map (code.naming first) = Label.fresh first code.labels.length :=
  map_rename_zip (Label.nodup_eraseDups _) Label.length_fresh.symm

theorem naming_mem {label : Label} (among : label ∈ code.labels) :
    code.naming first label ∈ Label.fresh first code.labels.length :=
  code.map_naming first ▸ List.mem_map_of_mem among

theorem naming_injective {one other : Label} (among : one ∈ code.labels)
    (among' : other ∈ code.labels) (same : code.naming first one = code.naming first other) :
    one = other :=
  List.inj_on_of_nodup_map (code.map_naming first ▸ Label.fresh_nodup) among among' same

/-- Under new names the snippet places different labels, if it does so under its own. -/
theorem placed_naming_nodup (once : code.PlacesOnce) :
    (code.placed.map (code.naming first)).Nodup := by
  refine once.nodup.map_on fun one among other among' same => ?_
  have own {label : Label} (among : label ∈ code.placed) : label ∈ code.labels :=
    mem_labels (mem_placed.1 among) List.mem_cons_self
  exact code.naming_injective first (own among) (own among') same

theorem nodeLabels_emitted (name : Label → Label) (node : Node) :
    nodeLabels (node.emitted name) = (nodeLabels node).map name := by
  cases node with
  | label | line => rfl
  | insn own =>
    show (own.relabel name).normal.targets = _
    rw [Instruction.targets_normal, Instruction.targets_relabel]
    rfl

/-- Labels stand where they stood before. -/
theorem idxOf_emitted {name : Label → Label} {label : Label} : ∀ {nodes : Snippet},
    (∀ other, .label other ∈ nodes → name other = name label → other = label) →
    (nodes.map (Node.emitted name)).idxOf (.label (name label)) = nodes.idxOf (.label label)
  | [], _ => rfl
  | node :: rest, apart => by
    have others := idxOf_emitted fun other among => apart other (List.mem_cons_of_mem node among)
    have same : (node.emitted name == .label (name label)) = (node == .label label) := by
      rw [Bool.eq_iff_iff, beq_iff_eq, beq_iff_eq]
      cases node with
      | label other =>
        refine ⟨fun same => ?_, fun same => same ▸ rfl⟩
        rw [apart other List.mem_cons_self (Node.label.inj same)]
      | line | insn => simp [Node.emitted]
    rw [List.map_cons, List.idxOf_cons, List.idxOf_cons, same, others]

/-- Whatever refers to a node refers to the same one under new names. -/
theorem references_naming :
    references (code.map (Node.emitted (code.naming first))) = code.references := by
  unfold references
  rw [List.map_map]
  refine List.map_congr_left fun node among => ?_
  rw [Function.comp_apply, nodeLabels_emitted, List.map_map]
  refine List.map_congr_left fun label own => idxOf_emitted fun other placed same => ?_
  have known : other ∈ code.labels := mem_labels placed List.mem_cons_self
  exact code.naming_injective first known (mem_labels among own) same

end Snippet

/-! ## What a snippet asks for -/

namespace Injection.Request

def event? : Injection.Request → Option MethodEvent
  | event told => some told
  | _ => none

def frame? : Injection.Request → Option (Label × FrameRequest)
  | frame place wanted => some (place, wanted)
  | _ => none

end Injection.Request

/-- What is asked for at a node: to be told, and where a jump leads, a frame for what arrives. -/
def Node.asks (targets : List Label) (name : Label → Label) (node : Node) :
    List Injection.Request :=
  .event (.ofNode (node.emitted name)) ::
    match node with
    | .label place => if targets.contains place then [.frame (name place) .same] else []
    | _ => []

/-- The rewrite that has handed out so many labels more. -/
def MethodRewrite.advance (rewrite : MethodRewrite) (count : Nat) : MethodRewrite :=
  { rewrite with nextLabel := rewrite.nextLabel + count }

theorem MethodRewrite.advance_freshLabel (rewrite : MethodRewrite) (count : Nat) :
    rewrite.freshLabel.2.advance count = rewrite.advance (count + 1) := by
  simp only [advance, freshLabel]
  rw [Nat.add_assoc, Nat.add_comm 1]

namespace Snippet

open MethodRewrite

theorem withFresh_run (next : List (Label × Label) → Injection) : ∀ (labels : List Label)
    (renamed : List (Label × Label)) (rewrite : MethodRewrite),
    (withFresh renamed next labels).run rewrite =
      (next (renamed ++ labels.zip (Label.fresh rewrite.nextLabel labels.length))).run
        (rewrite.advance labels.length) ∧
    (withFresh renamed next labels).requests rewrite =
      List.replicate labels.length .label ++
        (next (renamed ++ labels.zip (Label.fresh rewrite.nextLabel labels.length))).requests
          (rewrite.advance labels.length)
  | [], renamed, rewrite => by
    rw [List.zip_nil_left, List.append_nil]
    exact ⟨rfl, rfl⟩
  | label :: labels, renamed, rewrite => by
    obtain ⟨ran, asked⟩ := withFresh_run next labels (renamed ++ [(label, rewrite.freshLabel.1)])
      rewrite.freshLabel.2
    rw [advance_freshLabel, List.append_assoc] at ran asked
    exact ⟨ran, congrArg (List.cons Injection.Request.label) asked⟩

/-- A frame that is refused is a fault. -/
theorem fault_askFrame {rewrite : MethodRewrite} {label : Label} {wanted : FrameRequest}
    {cause : InstrumentError} {after : MethodRewrite}
    (refused : rewrite.askFrame label wanted = (.error cause, after)) : after.fault ≠ none := by
  have kept := fault_keepFault (rewrite.requestFrame label wanted)
  replace refused : keepFault (rewrite.requestFrame label wanted) = (.error cause, after) := refused
  rw [refused] at kept
  rw [kept]
  cases (rewrite.requestFrame label wanted).2.fault <;> nofun

/-- Where nothing goes wrong, all nodes are told. -/
theorem replay_requests {targets : List Label} {renamed : List (Label × Label)} :
    ∀ {code : Snippet} {rewrite : MethodRewrite},
    ((replay targets renamed code).run rewrite).2.fault = none →
    (replay targets renamed code).requests rewrite =
      code.flatMap (Node.asks targets (rename renamed))
  | [], _, _ => rfl
  | .label place :: rest, rewrite, fine => by
    rw [replay, Injection.run] at fine
    rw [replay, Injection.requests, List.flatMap_cons, Node.asks]
    by_cases leads : targets.contains place = true
    · simp only [leads, if_true, Injection.run, Injection.requests] at fine ⊢
      rcases answer : (rewrite.inject (.label (rename renamed place))).askFrame
        (rename renamed place) .same with ⟨cause | _, after⟩
      · rw [answer] at fine
        exact absurd fine (fault_askFrame answer)
      · rw [answer] at fine
        exact congrArg (_ :: _ :: ·) (replay_requests fine)
    · simp only [leads, Bool.false_eq_true, if_false] at fine ⊢
      exact congrArg (_ :: ·) (replay_requests fine)
  | .line number start :: rest, rewrite, fine => by
    rw [replay, Injection.run] at fine
    exact congrArg (_ :: ·) (replay_requests fine)
  | .insn own :: rest, rewrite, fine => by
    rw [replay, Injection.run] at fine
    have asks : (Node.insn own).asks targets (rename renamed) =
        [.event (.ofInstruction (own.relabel (rename renamed)))] :=
      congrArg (fun insn => [Injection.Request.event (.insn insn)]) (Instruction.normal_normal _)
    rw [replay, Injection.requests, List.flatMap_cons, asks]
    exact congrArg (_ :: ·) (replay_requests fine)

/-- A snippet asks for its labels, and then for its nodes under these. -/
theorem injection_requests {code : Snippet} {rewrite : MethodRewrite}
    (fine : (code.injection.run rewrite).2.fault = none) :
    code.injection.requests rewrite = List.replicate code.labels.length .label ++
      code.flatMap (Node.asks code.jumpTargets (code.naming rewrite.nextLabel)) := by
  unfold injection at fine ⊢
  rw [(withFresh_run _ _ _ _).1] at fine
  rw [(withFresh_run _ _ _ _).2]
  exact congrArg (_ ++ ·) (replay_requests fine)

end Snippet

/-! ## What is written -/

namespace MethodRewrite

variable {rewrite : MethodRewrite}

theorem fault_of_run {actions : List Action} (goesOn : ∀ action ∈ actions, action.ends = false)
    (fine : (actions.foldl act rewrite).fault = none) : rewrite.fault = none := by
  rw [run_fault actions rewrite goesOn] at fine
  exact (Option.or_eq_none_iff.1 fine).1

/-- Where no label is asked for, all that come up are made. -/
theorem handed_eq_made : ∀ {actions : List Action} {rewrite : MethodRewrite},
    .request .label ∉ actions → rewrite.handed actions = rewrite.made actions
  | [], _, _ => rfl
  | action :: rest, rewrite, unasked => by
    rw [List.mem_cons, not_or] at unasked
    have own : rewrite.hands action = rewrite.makes action := by
      unfold hands
      split
      · exact absurd rfl unasked.1
      · rfl
    show rewrite.hands action ++ handed _ rest = rewrite.makes action ++ made _ rest
    rw [own, handed_eq_made unasked.2]

/-- Labels that are asked for come one after the other. -/
theorem ask_labels (count : Nat) (rewrite : MethodRewrite) :
    (List.replicate count (Action.request .label)).foldl act rewrite = rewrite.advance count ∧
      rewrite.handed (List.replicate count (.request .label)) =
        Label.fresh rewrite.nextLabel count ∧
      rewrite.made (List.replicate count (.request .label)) = [] := by
  induction count generalizing rewrite with
  | zero => exact ⟨rfl, rfl, rfl⟩
  | succ count ih =>
    obtain ⟨reached, handed_, made_⟩ := ih rewrite.freshLabel.2
    exact ⟨reached.trans (rewrite.advance_freshLabel count),
      congrArg (rewrite.freshLabel.1 :: ·) handed_, made_⟩

end MethodRewrite

namespace Node

variable {targets : List Label} {name : Label → Label} {rewrite : MethodRewrite}

/-- What is asked for at nodes, as actions. -/
def askings (targets : List Label) (name : Label → Label) (nodes : List Node) : List Action :=
  (nodes.flatMap (asks targets name)).map .request

theorem events_asked (nodes : List Node) :
    (nodes.flatMap (asks targets name)).filterMap Injection.Request.event? =
      nodes.map fun node => .ofNode (node.emitted name) := by
  induction nodes with
  | nil => rfl
  | cons node rest ih =>
    have own : (asks targets name node).filterMap Injection.Request.event? =
        [.ofNode (node.emitted name)] := by
      unfold asks
      split
      · split <;> rfl
      · rfl
    rw [List.flatMap_cons, List.filterMap_append, ih, own]
    rfl

theorem frames_asked (nodes : List Node) :
    (nodes.flatMap (asks targets name)).filterMap Injection.Request.frame? =
      ((Snippet.placed nodes).filter fun place => targets.contains place).map fun place =>
        (name place, .same) := by
  induction nodes with
  | nil => rfl
  | cons node rest ih =>
    rw [List.flatMap_cons, List.filterMap_append, ih]
    cases node with
    | label place =>
      have placed : Snippet.placed (.label place :: rest) = place :: Snippet.placed rest := rfl
      rw [placed]
      by_cases leads : targets.contains place = true
      · rw [List.filter_cons_of_pos leads]
        simp only [asks, leads, if_true]
        rfl
      · rw [List.filter_cons_of_neg leads]
        simp only [asks, leads, Bool.false_eq_true, if_false]
        rfl
    | line | insn => rfl

theorem askings_cons (node : Node) (rest : List Node) : askings targets name (node :: rest) =
    askings targets name [node] ++ askings targets name rest := by
  simp [askings]

theorem mem_askings {nodes : List Node} {action : Action}
    (among : action ∈ askings targets name nodes) :
    (∃ node ∈ nodes, action = .request (.event (.ofNode (node.emitted name)))) ∨
      ∃ place, action = .request (.frame (name place) .same) := by
  obtain ⟨request, asked, rfl⟩ := List.mem_map.1 among
  obtain ⟨node, known, among⟩ := List.mem_flatMap.1 asked
  rcases List.mem_cons.1 among with rfl | among
  · exact .inl ⟨node, known, rfl⟩
  · split at among
    · split at among
      · exact .inr ⟨_, by rw [List.mem_singleton.1 among]⟩
      · cases among
    · cases among

theorem askings_goOn {nodes : List Node} :
    ∀ action ∈ askings targets name nodes, action.ends = false := by
  intro action among
  rcases mem_askings among with ⟨node, _, rfl⟩ | ⟨place, rfl⟩
  · cases node <;> rfl
  · rfl

theorem label_not_mem_askings {nodes : List Node} :
    .request .label ∉ askings targets name nodes := by
  intro among
  rcases mem_askings among with ⟨_, _, same⟩ | ⟨_, same⟩ <;> cases same

theorem nodes_emitted (name : Label → Label) (node : Node) :
    (MethodEvent.ofNode (node.emitted name)).nodes = [node.emitted name] := by
  cases node with
  | label | line => rfl
  | insn own =>
    show [Node.insn (own.relabel name).normal.normal.normal] = _
    rw [Instruction.normal_normal, Instruction.normal_normal]
    rfl

/-- A node is told, and it may be that a frame is asked for then. -/
theorem askings_single (targets : List Label) (name : Label → Label) (node : Node) :
    ∃ frame : List Label, askings targets name [node] =
      .request (.event (.ofNode (node.emitted name))) ::
        frame.map fun place => .request (.frame place .same) := by
  cases node with
  | label place =>
    by_cases leads : targets.contains place = true
    · refine ⟨[name place], ?_⟩
      simp only [askings, List.flatMap_singleton, asks, leads, if_true]
      rfl
    · refine ⟨[], ?_⟩
      simp only [askings, List.flatMap_singleton, asks, leads, Bool.false_eq_true, if_false]
      rfl
  | line | insn => exact ⟨[], rfl⟩

/-- To ask for frames writes nothing. -/
theorem frames_code : ∀ (places : List Label) (rewrite : MethodRewrite),
    ((places.map fun place => Action.request (.frame place .same)).foldl MethodRewrite.act
      rewrite).body.code = rewrite.body.code ∧
    rewrite.made (places.map fun place => Action.request (.frame place .same)) = []
  | [], _ => ⟨rfl, rfl⟩
  | place :: places, rewrite => by
    obtain ⟨code, made_⟩ := frames_code places (rewrite.askFrame place .same).2
    exact ⟨code.trans (rewrite.askFrame_still place .same).2, made_⟩

/-- A node is written as it is told, behind the label that is made for it. -/
theorem askings_code {node : Node}
    (fine : ((askings targets name [node]).foldl MethodRewrite.act rewrite).fault = none) :
    ((askings targets name [node]).foldl MethodRewrite.act rewrite).body.code = rewrite.body.code ++
      ((rewrite.made (askings targets name [node])).map .label ++ [node.emitted name]) := by
  obtain ⟨places, single⟩ := askings_single targets name node
  rw [single] at fine ⊢
  -- A fault is never taken back: if all went well, the first request did.
  have told : (rewrite.inject (.ofNode (node.emitted name))).fault = none := by
    refine MethodRewrite.fault_of_run (fun action among => ?_) fine
    obtain ⟨place, _, rfl⟩ := List.mem_map.1 among
    rfl
  obtain ⟨code, made_⟩ := frames_code places (rewrite.inject (.ofNode (node.emitted name)))
  have own : rewrite.made (.request (.event (.ofNode (node.emitted name))) ::
      places.map fun place => .request (.frame place .same)) =
        rewrite.eventMakes (.ofNode (node.emitted name)) :=
    (congrArg (_ ++ ·) made_).trans (List.append_nil _)
  rw [own, ← nodes_emitted, ← rewrite.inject_code told]
  exact code

/-- The nodes are written in their order, with nothing between them but labels that are made. -/
theorem askings_written {others : List Label} : ∀ {nodes : List Node} {rewrite : MethodRewrite},
    ((askings targets name nodes).foldl MethodRewrite.act rewrite).fault = none →
    rewrite.made (askings targets name nodes) ⊆ others →
    (∀ node ∈ nodes, node.emitted name ∉ others.map Node.label) →
    ∃ written, ((askings targets name nodes).foldl MethodRewrite.act rewrite).body.code =
        rewrite.body.code ++ written ∧
      written.filter (fun node => decide (node ∉ others.map Node.label)) =
        nodes.map (Node.emitted name)
  | [], rewrite, _, _, _ => ⟨[], (List.append_nil _).symm, rfl⟩
  | node :: rest, rewrite, fine, unasked, apart => by
    rw [askings_cons, List.foldl_append] at fine
    rw [askings_cons, MethodRewrite.made_append] at unasked
    obtain ⟨own, later⟩ := List.append_subset.1 unasked
    have code := askings_code (MethodRewrite.fault_of_run askings_goOn fine)
    obtain ⟨written, code', kept⟩ := askings_written fine later fun other among =>
      apart other (List.mem_cons_of_mem node among)
    refine ⟨(rewrite.made (askings targets name [node])).map .label ++
      [node.emitted name] ++ written, ?_, ?_⟩
    · rw [askings_cons, List.foldl_append, code', code, List.append_assoc]
    · have labels : ((rewrite.made (askings targets name [node])).map Node.label).filter
          (fun node => decide (node ∉ others.map Node.label)) = [] := by
        refine List.filter_eq_nil_iff.2 fun node among => ?_
        obtain ⟨label, known, rfl⟩ := List.mem_map.1 among
        simpa using own known
      have stays : [node.emitted name].filter
          (fun node => decide (node ∉ others.map Node.label)) = [node.emitted name] :=
        List.filter_cons_of_pos (decide_eq_true (apart node List.mem_cons_self))
      rw [List.filter_append, List.filter_append, labels, stays, kept]
      rfl

end Node

end ClassWeave
