/-
# ClassWeave.Proofs.PlacedLabels -- every label of a new body is placed once

Labels that are handed out are new, and whoever is handed one places it once: a rewrite
that needs a label at its place, a layer that opens or closes a range, and a snippet
whose own labels are placed once.  With the labels of the method, which are those of its
offsets, this makes `MethodRewrite.Numbered`: no label stands twice in the new code, and
every label in it was told or has been handed out.
-/
import ClassWeave.Proofs.Decoding
import ClassWeave.Proofs.MethodPayloads
import ClassWeave.Proofs.RewriteTrace

set_option autoImplicit false

namespace ClassWeave

/-- No label is placed twice. -/
def Snippet.PlacesOnce (code : Snippet) : Prop := ∀ label, code.count (.label label) ≤ 1

theorem Snippet.PlacesOnce.tail {node : Node} {code : Snippet}
    (once : Snippet.PlacesOnce (node :: code)) : code.PlacesOnce := fun label =>
  Nat.le_trans (List.count_le_count_cons) (once label)

/-- Behind a label that is placed once it is not placed again. -/
theorem Snippet.not_mem_of_count {code early late : Snippet} {label : Label}
    (once : code.count (.label label) ≤ 1) (split : code = early ++ .label label :: late) :
    .label label ∉ late := by
  rw [split, List.count_append, List.count_cons_self] at once
  exact List.count_eq_zero.1 (by omega)

theorem MethodBody.code_placeLabel (body : MethodBody) (label : Label) :
    (body.placeLabel label).code = body.code ++ [.label label] := by
  simp [placeLabel, code]

namespace MethodRewrite

/-- No label stands twice in the code, and every label there was told or has been handed out. -/
structure Numbered (told : List Label) (rewrite : MethodRewrite) : Prop where
  once : rewrite.body.code.PlacesOnce
  known : ∀ label, .label label ∈ rewrite.body.code → label ∈ told ∨
    Label.firstFresh ≤ label.id ∧ label.id < Label.firstFresh + rewrite.nextLabel

namespace Numbered

variable {told : List Label} {before after rewrite : MethodRewrite}

theorem quiet (numbered : before.Numbered told) (code : after.body.code = before.body.code)
    (labels : before.nextLabel ≤ after.nextLabel) : after.Numbered told := by
  refine ⟨code ▸ numbered.once, fun label among => ?_⟩
  rw [code] at among
  refine (numbered.known label among).imp_right fun made => ⟨made.1, ?_⟩
  have bound := made.2
  omega

theorem of_outline {outline : MethodRewrite} (same : after.outline = outline)
    (numbered : outline.Numbered told) : after.Numbered told := by
  subst same
  exact ⟨numbered.once, numbered.known⟩

theorem mono (numbered : rewrite.Numbered told) {more : List Label} (subset : told ⊆ more) :
    rewrite.Numbered more :=
  ⟨numbered.once, fun label among => (numbered.known label among).imp_left (@subset label)⟩

theorem start (target : RewriteTarget) (method : MethodContext) :
    (MethodRewrite.start target method).Numbered told :=
  ⟨fun _ => Nat.zero_le _, fun _ among => nomatch among⟩

theorem mark (numbered : rewrite.Numbered told) :
    Numbered told { rewrite with injected := true } := numbered.quiet rfl (Nat.le_refl _)

/-- Lines and instructions are added. -/
theorem write (numbered : before.Numbered told) {node : Node}
    (code : after.body.code = before.body.code ++ [node]) (bare : ∀ label, node ≠ .label label)
    (labels : after.nextLabel = before.nextLabel) : after.Numbered told := by
  refine ⟨fun label => ?_, fun label among => ?_⟩
  · rw [code, List.count_append, List.count_singleton, if_neg (by simpa using bare label)]
    exact numbered.once label
  · rw [code, List.mem_append, List.mem_singleton] at among
    rw [labels]
    exact numbered.known label (among.resolve_right fun same => bare label same.symm)

theorem placeLabel (numbered : rewrite.Numbered told) {label : Label}
    (new : .label label ∉ rewrite.body.code)
    (known : label ∈ told ∨
      Label.firstFresh ≤ label.id ∧ label.id < Label.firstFresh + rewrite.nextLabel) :
    (rewrite.placeLabel label).Numbered told := by
  refine .of_outline (rewrite.outline_placeLabel label) ⟨fun other => ?_, fun other among => ?_⟩
  · have bound := numbered.once other
    show (rewrite.body.placeLabel label).code.count (.label other) ≤ 1
    rw [MethodBody.code_placeLabel, List.count_append, List.count_singleton]
    split
    · rename_i same
      cases beq_iff_eq.1 same
      have nowhere := List.count_eq_zero.2 new
      omega
    · exact bound
  · have among : .label other ∈ (rewrite.body.placeLabel label).code := among
    rw [MethodBody.code_placeLabel, List.mem_append, List.mem_singleton] at among
    rcases among with old | same
    · exact numbered.known other old
    · cases same
      exact known

/-- A label that is handed out stands nowhere yet. -/
theorem fresh (numbered : rewrite.Numbered told) (old : ∀ label ∈ told, label.isFresh = false) :
    .label rewrite.freshLabel.1 ∉ rewrite.body.code := by
  intro among
  rcases numbered.known _ among with own | made
  · have wrong := old _ own
    rw [rewrite.isFresh_freshLabel] at wrong
    cases wrong
  · have bound := made.2
    simp only [freshLabel] at bound
    omega

section Operations

variable (old : ∀ label ∈ told, label.isFresh = false) (numbered : rewrite.Numbered told)

include old numbered

theorem labelHere : rewrite.labelHere.2.Numbered told := by
  cases group : rewrite.group with
  | cons label others =>
    rw [labelHere_of_group rewrite group]
    exact numbered
  | nil =>
    rw [labelHere_of_empty rewrite group]
    have handed : rewrite.freshLabel.2.Numbered told := numbered.quiet rfl (Nat.le_succ _)
    exact handed.placeLabel (numbered.fresh old) (.inr ⟨Nat.le_add_right _ _, Nat.lt_succ_self _⟩)

theorem instruction (insn : Instruction) : (rewrite.instruction insn).Numbered told := by
  have placed : (rewrite.position insn).2.Numbered told := by
    unfold position
    split
    · exact numbered
    · split
      · exact labelHere old numbered
      · exact numbered
  by_cases taken : rewrite.ledger.phase = .open
  · refine .of_outline (rewrite.outline_instruction insn taken) ?_
    have put := (rewrite.position insn).2.putInstruction_gains insn
    exact placed.write put.code (fun _ => nofun) rfl
  · unfold MethodRewrite.instruction
    rw [if_pos taken]
    exact numbered.quiet rfl (Nat.le_refl _)

theorem step {event : MethodEvent} (other : ∀ label, event ≠ .label label) :
    (rewrite.step event).Numbered told := by
  cases event with
  | label label => exact absurd rfl (other label)
  | sizes | tryBlock | «variable» | maxs => exact numbered.quiet rfl (Nat.le_refl _)
  | line number start =>
    have code : (rewrite.step (.line number start)).body.code =
        rewrite.body.code ++ [.line number start] := by
      simp [MethodRewrite.step, MethodBody.add, MethodBody.code]
    exact numbered.write code (fun _ same => by cases same) rfl
  | insn insn => exact instruction old numbered insn
  | frame locals stack =>
    rcases rewrite.outline_originalFrame locals stack with ⟨_, same⟩ | ⟨_, frame, _, same⟩
    · show (rewrite.originalFrame locals stack).Numbered told
      rw [same]
      exact numbered
    · exact .of_outline same ((labelHere old numbered).quiet rfl (Nat.le_refl _))
  | finish =>
    show rewrite.close.Numbered told
    unfold close
    split
    · exact numbered
    · split
      · exact numbered.quiet rfl (Nat.le_refl _)
      · simp only
        split <;> exact numbered.quiet rfl (Nat.le_refl _)

theorem perform (request : Injection.Request) (other : ∀ label, request ≠ .event (.label label)) :
    (rewrite.perform request).Numbered told := by
  have slot (type : ValueType) : (rewrite.allocate type).2.Numbered told :=
    .of_outline (rewrite.outline_allocate type) (numbered.quiet rfl (Nat.le_refl _))
  cases request with
  | label => exact numbered.quiet rfl (Nat.le_succ _)
  | event event =>
    exact step old numbered.mark fun label same => other label (congrArg _ same)
  | slot type => exact slot type
  | store type =>
    show (rewrite.storeNew type).2.Numbered told
    rw [storeNew_eq]
    split
    · exact instruction old (slot type).mark _
    · exact slot type
  | handler block =>
    exact .of_outline (rewrite.outline_addHandler block) (numbered.quiet rfl (Nat.le_refl _))
  | frame label wanted =>
    refine .of_outline (rewrite.outline_askFrame label wanted) ?_
    rcases rewrite.outline_requestFrame label wanted with same | same | ⟨_, _, _, _, _, same⟩
    all_goals
      rw [same]
      exact numbered.quiet rfl (Nat.le_refl _)
  | fault => exact numbered.quiet rfl (Nat.le_refl _)

end Operations

end Numbered

/-- The label has been handed out and stands nowhere yet. -/
structure Unplaced (rewrite : MethodRewrite) (label : Label) : Prop where
  low : Label.firstFresh ≤ label.id
  high : label.id < Label.firstFresh + rewrite.nextLabel
  nowhere : .label label ∉ rewrite.body.code

namespace Unplaced

variable {told : List Label} {before after rewrite : MethodRewrite} {label : Label}

/-- What is placed is another label, or one that is handed out later. -/
theorem goesOn (unplaced : before.Unplaced label) {nodes : List Node}
    (code : after.body.code = before.body.code ++ nodes)
    (labels : before.nextLabel ≤ after.nextLabel)
    (others : ∀ other, .label other ∈ nodes →
      other ≠ label ∨ Label.firstFresh + before.nextLabel ≤ other.id) : after.Unplaced label := by
  have high := unplaced.high
  refine ⟨unplaced.low, by omega, ?_⟩
  rw [code, List.mem_append]
  rintro (old | new)
  · exact unplaced.nowhere old
  · rcases others label new with apart | later
    · exact apart rfl
    · omega

theorem of_outline {outline : MethodRewrite} (same : after.outline = outline)
    (unplaced : outline.Unplaced label) : after.Unplaced label := by
  subst same
  exact ⟨unplaced.low, unplaced.high, unplaced.nowhere⟩

theorem freshLabel (numbered : rewrite.Numbered told)
    (old : ∀ label ∈ told, label.isFresh = false) :
    rewrite.freshLabel.2.Unplaced rewrite.freshLabel.1 :=
  ⟨Nat.le_add_right _ _, Nat.lt_succ_self _, numbered.fresh old⟩

theorem placeLabel (unplaced : rewrite.Unplaced label) {other : Label} (apart : other ≠ label) :
    (rewrite.placeLabel other).Unplaced label := by
  refine .of_outline (rewrite.outline_placeLabel other) ?_
  refine unplaced.goesOn (rewrite.body.code_placeLabel other) (Nat.le_refl _) fun one among => ?_
  cases List.mem_singleton.1 among
  exact .inl apart

theorem labelHere (unplaced : rewrite.Unplaced label) : rewrite.labelHere.2.Unplaced label := by
  cases group : rewrite.group with
  | cons label others =>
    rw [labelHere_of_group rewrite group]
    exact unplaced
  | nil =>
    rw [labelHere_of_empty rewrite group]
    have later : rewrite.freshLabel.2.Unplaced label :=
      unplaced.goesOn (List.append_nil _).symm (Nat.le_succ _) nofun
    refine later.placeLabel ?_
    rintro rfl
    exact Nat.lt_irrefl _ unplaced.high

theorem instruction (unplaced : rewrite.Unplaced label) (insn : Instruction) :
    (rewrite.instruction insn).Unplaced label := by
  have placed : (rewrite.position insn).2.Unplaced label := by
    unfold position
    split
    · exact unplaced
    · split
      · exact unplaced.labelHere
      · exact unplaced
  by_cases taken : rewrite.ledger.phase = .open
  · refine .of_outline (rewrite.outline_instruction insn taken) ?_
    have put := (rewrite.position insn).2.putInstruction_gains insn
    refine placed.goesOn put.code (Nat.le_refl _) fun other among => ?_
    cases List.mem_singleton.1 among
  · unfold MethodRewrite.instruction
    rw [if_pos taken]
    exact unplaced.goesOn (List.append_nil _).symm (Nat.le_refl _) nofun

theorem line (unplaced : rewrite.Unplaced label) (number : UInt16) (start : Label) :
    (rewrite.step (.line number start)).Unplaced label := by
  have code : (rewrite.step (.line number start)).body.code =
      rewrite.body.code ++ [.line number start] := by
    simp [MethodRewrite.step, MethodBody.add, MethodBody.code]
  refine unplaced.goesOn code (Nat.le_refl _) fun other among => ?_
  cases List.mem_singleton.1 among

theorem askFrame (unplaced : rewrite.Unplaced label) (place : Label) (wanted : FrameRequest) :
    (rewrite.askFrame place wanted).2.Unplaced label := by
  refine .of_outline (rewrite.outline_askFrame place wanted) ?_
  rcases rewrite.outline_requestFrame place wanted with same | same | ⟨_, _, _, _, _, same⟩
  all_goals
    rw [same]
    exact unplaced.goesOn (List.append_nil _).symm (Nat.le_refl _) nofun

end Unplaced

end MethodRewrite

/-! ## Snippets -/

namespace Snippet

open MethodRewrite

variable {told : List Label} (old : ∀ label ∈ told, label.isFresh = false)

include old

/-- The labels of the snippet are handed out, each for itself, and placed nowhere yet. -/
theorem replay_numbered {targets : List Label} {renamed : List (Label × Label)} :
    ∀ {code : Snippet} {rewrite : MethodRewrite}, rewrite.Numbered told → code.PlacesOnce →
    (∀ label, .label label ∈ code → rewrite.Unplaced (rename renamed label)) →
    (∀ label other, .label label ∈ code → .label other ∈ code →
      rename renamed label = rename renamed other → label = other) →
    ((replay targets renamed code).run rewrite).2.Numbered told
  | [], _, numbered, _, _, _ => numbered
  | node :: rest, rewrite, numbered, once, unplaced, apart => by
    have distinct : ∀ one other, .label one ∈ rest → .label other ∈ rest →
        rename renamed one = rename renamed other → one = other := fun one other first second =>
      apart one other (List.mem_cons_of_mem _ first) (List.mem_cons_of_mem _ second)
    -- Whatever the first node is, the rest is replayed where the others are not placed yet.
    have onwards {after : MethodRewrite} (reached : after.Numbered told)
        (others : ∀ label, .label label ∈ rest → after.Unplaced (rename renamed label)) :
        ((replay targets renamed rest).run after).2.Numbered told :=
      replay_numbered reached once.tail others distinct
    have later {label : Label} (among : .label label ∈ rest) :
        Unplaced { rewrite with injected := true } (rename renamed label) :=
      (unplaced label (List.mem_cons_of_mem _ among)).goesOn (List.append_nil _).symm
        (Nat.le_refl _) fun _ among => absurd among List.not_mem_nil
    cases node with
    | label label =>
      have own := unplaced label List.mem_cons_self
      have placed : (rewrite.inject (.label (rename renamed label))).Numbered told :=
        numbered.mark.placeLabel own.nowhere (.inr ⟨own.low, own.high⟩)
      have others : ∀ other, .label other ∈ rest →
          (rewrite.inject (.label (rename renamed label))).Unplaced (rename renamed other) := by
        intro other among
        refine (later among).placeLabel fun same => ?_
        obtain rfl := apart label other List.mem_cons_self (List.mem_cons_of_mem _ among) same
        have split : Node.label label :: rest = [] ++ Node.label label :: rest := rfl
        exact Snippet.not_mem_of_count (once label) split among
      rw [replay, Injection.run]
      split
      · rw [Injection.run]
        have asked : ((rewrite.inject (.label (rename renamed label))).askFrame
            (rename renamed label) .same).2.Numbered told :=
          placed.perform old (.frame _ _) fun _ same => by cases same
        have others' := fun other among =>
          (others other among).askFrame (rename renamed label) .same
        cases answer : (rewrite.inject (.label (rename renamed label))).askFrame
            (rename renamed label) .same with
        | mk outcome after =>
          rw [answer] at asked others'
          cases outcome with
          | ok => exact onwards asked others'
          | error => exact asked
      · exact onwards placed others
    | line number start =>
      have written : (rewrite.inject (.line number (rename renamed start))).Numbered told :=
        numbered.mark.step old fun _ same => by cases same
      exact onwards written fun label among => (later among).line number (rename renamed start)
    | insn insn =>
      have written : (rewrite.inject (.ofInstruction (insn.relabel (rename renamed)))).Numbered
          told := numbered.mark.step old fun _ same => by cases same
      exact onwards written fun label among => (later among).instruction _

omit old in
/-- Where a label was renamed, it is listed with its name. -/
theorem pair_rename {renamed : List (Label × Label)} {label : Label}
    (known : label ∈ renamed.map Prod.fst) : (label, rename renamed label) ∈ renamed := by
  unfold rename
  cases found : renamed.lookup label with
  | some other =>
    obtain ⟨before, after, same, _⟩ := List.lookup_eq_some_iff.1 found
    simp [same]
  | none =>
    obtain ⟨pair, among, rfl⟩ := List.mem_map.1 known
    have apart := List.lookup_eq_none_iff.1 found pair among
    simp at apart

theorem withFresh_numbered {next : List (Label × Label) → Injection} :
    ∀ (labels : List Label) {renamed : List (Label × Label)} {rewrite : MethodRewrite},
    rewrite.Numbered told → (∀ pair ∈ renamed, rewrite.Unplaced pair.2) →
    (∀ pair ∈ renamed, ∀ other ∈ renamed, pair.2 = other.2 → pair = other) →
    (∀ (found : List (Label × Label)) (after : MethodRewrite), after.Numbered told →
      (∀ pair ∈ found, after.Unplaced pair.2) →
      (∀ pair ∈ found, ∀ other ∈ found, pair.2 = other.2 → pair = other) →
      found.map Prod.fst = renamed.map Prod.fst ++ labels →
      ((next found).run after).2.Numbered told) →
    ((withFresh renamed next labels).run rewrite).2.Numbered told
  | [], renamed, rewrite, numbered, unplaced, distinct, goesOn =>
    goesOn renamed rewrite numbered unplaced distinct (List.append_nil _).symm
  | label :: labels, renamed, rewrite, numbered, unplaced, distinct, goesOn => by
    have handed : rewrite.freshLabel.2.Numbered told := numbered.quiet rfl (Nat.le_succ _)
    refine withFresh_numbered labels handed ?_ ?_ fun found after reached all names same =>
      goesOn found after reached all names ?_
    · intro pair among
      rcases List.mem_append.1 among with earlier | new
      · exact (unplaced pair earlier).goesOn (List.append_nil _).symm (Nat.le_succ _) nofun
      · rw [List.mem_singleton.1 new]
        exact .freshLabel numbered old
    · have apart {pair : Label × Label} (among : pair ∈ renamed) : pair.2 ≠ rewrite.freshLabel.1 := by
        intro same
        have high := (unplaced pair among).high
        rw [same] at high
        exact Nat.lt_irrefl _ high
      intro pair among other among' same
      rcases List.mem_append.1 among with earlier | new
      · rcases List.mem_append.1 among' with earlier' | new'
        · exact distinct pair earlier other earlier' same
        · rw [List.mem_singleton.1 new'] at same
          exact absurd same (apart earlier)
      · rcases List.mem_append.1 among' with earlier' | new'
        · rw [List.mem_singleton.1 new] at same
          exact absurd same.symm (apart earlier')
        · rw [List.mem_singleton.1 new, List.mem_singleton.1 new']
    · rw [same, List.map_append, List.append_assoc]
      rfl

/-- A snippet that places its labels once does so wherever it is injected. -/
theorem injection_numbered {code : Snippet} (once : code.PlacesOnce) {rewrite : MethodRewrite}
    (numbered : rewrite.Numbered told) : (code.injection.run rewrite).2.Numbered told := by
  refine withFresh_numbered old code.labels numbered (List.forall_mem_nil _) (List.forall_mem_nil _)
    fun renamed after reached unplaced distinct names => ?_
  have known {label : Label} (among : .label label ∈ code) :
      (label, rename renamed label) ∈ renamed := by
    refine pair_rename ?_
    rw [names, List.map_nil, List.nil_append, labels, List.mem_eraseDups, List.mem_flatMap]
    exact ⟨.label label, among, List.mem_singleton.2 rfl⟩
  refine replay_numbered old reached once (fun label among => unplaced _ (known among))
    fun label other among among' same => ?_
  exact congrArg Prod.fst (distinct _ (known among) _ (known among') same)

end Snippet

/-- The code of the probe is a snippet that places its labels once. -/
def Probe.PlacesOnce (probe : Probe) : Prop :=
  ∃ code, probe.code = Snippet.probeCode code ∧ code.PlacesOnce

/-! ## Layers -/

namespace Layer

open MethodRewrite

variable {told : List Label} {layer : Layer} {rewrite : MethodRewrite}
  (old : ∀ label ∈ told, label.isFresh = false)

include old

theorem fire_numbered (once : layer.probe.PlacesOnce) (numbered : rewrite.Numbered told)
    (slot : Option UInt16) : (layer.fire slot rewrite).Numbered told := by
  obtain ⟨code, same, once⟩ := once
  have ran := Snippet.injection_numbered old once numbered
  unfold fire
  rw [same]
  simp only [Snippet.probeCode]
  split
  · rename_i after answer
    rw [answer] at ran
    exact ran
  · rename_i cause after answer
    rw [answer] at ran
    exact ran.quiet rfl (Nat.le_refl _)

theorem capture_numbered (numbered : rewrite.Numbered told) (type : ValueType) :
    (capture type rewrite).2.Numbered told := by
  have copied : (rewrite.inject (.insn (.simple
      (if type.size = 2 then Opcode.dup2 else Opcode.dup)))).Numbered told :=
    numbered.mark.step old nofun
  have stored := copied.perform old (.store type) nofun
  unfold capture
  simp only
  split
  · rename_i slot after answer
    replace stored : ((rewrite.inject _).storeNew type).2.Numbered told := stored
    rw [answer] at stored
    exact stored
  · rename_i cause after answer
    replace stored : ((rewrite.inject _).storeNew type).2.Numbered told := stored
    rw [answer] at stored
    exact stored.quiet rfl (Nat.le_refl _)

theorem fireWith_numbered (once : layer.probe.PlacesOnce) (numbered : rewrite.Numbered told)
    (type : ValueType) : (layer.fireWith type rewrite).Numbered told :=
  fire_numbered old once (capture_numbered old numbered type) _

theorem openRange_numbered (numbered : rewrite.Numbered told) :
    (openRange rewrite).2.Numbered told := by
  have handed : rewrite.freshLabel.2.Numbered told := numbered.quiet rfl (Nat.le_succ _)
  have free : rewrite.freshLabel.2.Unplaced rewrite.freshLabel.1 := .freshLabel numbered old
  exact handed.mark.placeLabel free.nowhere (.inr ⟨free.low, free.high⟩)

theorem closeRange_numbered (once : layer.probe.PlacesOnce) (numbered : rewrite.Numbered told)
    (opened : Label) : (layer.closeRange opened rewrite).Numbered told := by
  let stop := rewrite.freshLabel.1
  let handler := rewrite.freshLabel.2.freshLabel.1
  let handed := rewrite.freshLabel.2.freshLabel.2
  have first : rewrite.freshLabel.2.Numbered told := numbered.quiet rfl (Nat.le_succ _)
  have second : handed.Numbered told := first.quiet rfl (Nat.le_succ _)
  have stopFree : Unplaced { handed with injected := true } stop := by
    have made : rewrite.freshLabel.2.Unplaced stop := .freshLabel numbered old
    exact made.goesOn (List.append_nil _).symm (Nat.le_succ _) fun _ among => by cases among
  have handlerFree : Unplaced { handed with injected := true } handler := by
    have made : handed.Unplaced handler := .freshLabel first old
    exact made.goesOn (List.append_nil _).symm (Nat.le_refl _) fun _ among => by cases among
  have stopped : (handed.inject (.label stop)).Numbered told :=
    second.mark.placeLabel stopFree.nowhere (.inr ⟨stopFree.low, stopFree.high⟩)
  -- Placing the first label must leave the second unplaced.
  have apart : stop ≠ handler := by
    intro same
    have ids := congrArg Label.id same
    simp only [stop, handler, freshLabel] at ids
    omega
  have still : (handed.inject (.label stop)).Unplaced handler := handlerFree.placeLabel apart
  have placed : ((handed.inject (.label stop)).inject (.label handler)).Numbered told :=
    stopped.mark.placeLabel still.nowhere (.inr ⟨still.low, still.high⟩)
  have added := placed.perform old (.handler ⟨opened, stop, handler, none⟩)
    fun _ same => by cases same
  unfold closeRange
  simp only
  split
  · rename_i cause after answer
    replace added : (addHandler _ _).2.Numbered told := added
    rw [answer] at added
    exact added.quiet rfl (Nat.le_refl _)
  · rename_i after answer
    replace added : (addHandler _ _).2.Numbered told := added
    rw [answer] at added
    have asked := added.perform old
      (.frame handler (.replace [.object ClassName.throwable]))
      fun _ same => by cases same
    split
    · rename_i cause last answer
      replace asked : (askFrame _ _ _).2.Numbered told := asked
      rw [answer] at asked
      exact asked.quiet rfl (Nat.le_refl _)
    · rename_i last answer
      replace asked : (askFrame _ _ _).2.Numbered told := asked
      rw [answer] at asked
      exact (fireWith_numbered old once asked ValueType.throwable).mark.step old
        fun _ same => by cases same

theorem before_numbered (once : layer.probe.PlacesOnce) (numbered : rewrite.Numbered told)
    (event : MethodEvent) : (layer.before event rewrite).2.Numbered told := by
  have fired := fire_numbered old once numbered none
  have firedWith := fireWith_numbered old once numbered
  unfold before
  split
  · split
    · simp only
      split
      · exact fired
      · exact firedWith _
    · exact numbered
  · exact closeRange_numbered old once numbered _
  · exact numbered
  · exact fired
  · exact numbered
  · exact numbered
  · exact firedWith _
  · split
    · simp only
      split
      · exact firedWith _
      · exact fired
    · exact numbered
  · exact numbered

theorem after_numbered (once : layer.probe.PlacesOnce) (numbered : rewrite.Numbered told)
    (event : MethodEvent) : (layer.after event rewrite).2.Numbered told := by
  have fired := fire_numbered old once numbered none
  have firedWith := fireWith_numbered old once numbered
  have opened := openRange_numbered old numbered
  unfold after
  split
  · simp only
    split
    · exact numbered
    · exact fired
  · simp only
    split
    · exact fired
    · exact numbered
  · split
    · exact numbered
    · exact opened
  · simp only
    split
    · exact opened
    · exact numbered
  · split
    · simp only
      split
      · exact firedWith _
      · exact fired
    · exact numbered
  · exact numbered

/-- An event that is no label, on its way through the layers. -/
theorem stepAll_numbered {event : MethodEvent} (other : ∀ label, event ≠ .label label) :
    ∀ {layers : List Layer} {rewrite : MethodRewrite},
      (∀ layer ∈ layers, layer.probe.PlacesOnce) → rewrite.Numbered told →
      (stepAll layers event rewrite).2.Numbered told
  | [], _, _, numbered => numbered.step old other
  | layer :: rest, rewrite, once, numbered => by
    have own := once layer List.mem_cons_self
    have early := before_numbered old own numbered event
    have passed := stepAll_numbered other
      (fun other among => once other (List.mem_cons_of_mem layer among)) early
    have own' : (layer.before event rewrite).1.probe.PlacesOnce := by
      rw [before_probe]
      exact own
    exact after_numbered old own' passed event

end Layer

/-- The label that an event places. -/
def MethodEvent.label? : MethodEvent → Option Label
  | .label place => some place
  | _ => none

/-- **Every label of a new body is placed once**, if the snippets and the method place theirs once,
and those of the method stand for offsets. -/
theorem Layer.runAll_numbered : ∀ {events : List MethodEvent} {layers : List Layer}
    {told : List Label} {rewrite : MethodRewrite},
    (∀ layer ∈ layers, layer.probe.PlacesOnce) →
    (∀ label ∈ told ++ events.filterMap MethodEvent.label?, label.isFresh = false) →
    (told ++ events.filterMap MethodEvent.label?).Nodup → rewrite.Numbered told →
    (runAll layers events rewrite).2.Numbered (told ++ events.filterMap MethodEvent.label?)
  | [], _, _, _, _, _, _, numbered => numbered.mono (List.subset_append_left _ _)
  | event :: events, layers, told, rewrite, once, old, distinct, numbered => by
    have once' := forall_stepAll event rewrite once
    have rest {more : List Label} (reached : (stepAll layers event rewrite).2.Numbered more)
        (same : more ++ events.filterMap MethodEvent.label? =
          told ++ (event :: events).filterMap MethodEvent.label?) :
        (runAll layers (event :: events) rewrite).2.Numbered
          (told ++ (event :: events).filterMap MethodEvent.label?) := by
      rw [← same] at old distinct ⊢
      exact runAll_numbered once' old distinct reached
    have before : ∀ label ∈ told, label.isFresh = false := fun label among =>
      old label (List.mem_append_left _ among)
    cases event with
    | label label =>
      have same : (told ++ [label]) ++ events.filterMap MethodEvent.label? =
          told ++ (MethodEvent.label label :: events).filterMap MethodEvent.label? :=
        List.append_assoc _ _ _
      refine rest ?_ same
      have idle : (MethodEvent.label label).Idle := trivial
      rw [stepAll_idle idle]
      refine (numbered.mono (List.subset_append_left told [label])).placeLabel ?_
        (.inl (List.mem_append_right _ List.mem_cons_self))
      intro among
      rcases numbered.known label among with early | made
      · rw [← same, List.append_assoc, List.nodup_append] at distinct
        exact distinct.2.2 label early label List.mem_cons_self rfl
      · have fresh := old label (List.mem_append_right _ List.mem_cons_self)
        rw [Label.isFresh, decide_eq_false_iff_not] at fresh
        exact fresh made.1
    | _ => exact rest (stepAll_numbered before (fun _ same => by cases same) once numbered) rfl

section Labels

variable (lines : Std.TreeMap Nat (List UInt16)) (frames : Std.TreeMap Nat PinnedFrame)

theorem CodeAttribute.tellInstruction_labels (offset : Nat) (insn : Instruction) :
    (tellInstruction lines frames offset insn).filterMap MethodEvent.label? = [⟨offset⟩] := by
  have asides_ : (asides lines frames offset).filterMap MethodEvent.label? = [] := by
    refine List.filterMap_eq_nil_iff.2 fun event among => ?_
    have aside := aside_of_mem among
    cases event <;> first | rfl | exact aside.elim
  rw [tellInstruction_eq]
  show ⟨offset⟩ :: List.filterMap MethodEvent.label? (_ ++ _) = _
  rw [List.filterMap_append, asides_]
  rfl

theorem CodeAttribute.tellInstructions_labels : ∀ items : List (Nat × Instruction),
    (items.flatMap fun (offset, insn) => tellInstruction lines frames offset insn).filterMap
      MethodEvent.label? = items.map fun item => ⟨item.1⟩
  | [] => rfl
  | item :: items => by
    rw [List.flatMap_cons, List.filterMap_append, tellInstruction_labels,
      tellInstructions_labels items]
    rfl

end Labels

/-- The labels that a method places are those of its instructions and of its end. -/
theorem CodeAttribute.tell_labels {code : CodeAttribute} {entries : Entries}
    {className methodName descriptor : String} {isStatic : Bool} {events : List MethodEvent}
    (told : (code.tell entries className methodName descriptor isStatic).Told events) :
    ∃ items, decode entries code.code = .ok items ∧ events.filterMap MethodEvent.label? =
      items.map (fun item => ⟨item.1⟩) ++ [⟨code.code.length⟩] := by
  obtain ⟨items, blocks, lines, frames, rest, decoded, _, rfl, _, silent⟩ := tell_told told
  refine ⟨items, decoded, ?_⟩
  have ranges : (blocks.map MethodEvent.tryBlock).filterMap MethodEvent.label? = [] := by
    rw [List.filterMap_map]
    exact List.filterMap_eq_nil_iff.2 fun _ _ => rfl
  have last : rest.filterMap MethodEvent.label? = [] := by
    refine List.filterMap_eq_nil_iff.2 fun event among => ?_
    have quiet := silent event among
    cases event <;> first | rfl | exact quiet.elim
  have ending : (MethodEvent.label ⟨code.code.length⟩ :: rest).filterMap MethodEvent.label? =
      [⟨code.code.length⟩] := congrArg (List.cons _) last
  rw [List.filterMap_append, List.filterMap_cons_none rfl, ranges, List.filterMap_append,
    tellInstructions_labels, ending]
  rfl

/-- The new body of a method places every label once. -/
theorem Layer.runAll_places_once {code : CodeAttribute} {entries : Entries}
    {className methodName descriptor : String} {isStatic : Bool} {told : List MethodEvent}
    (body : (code.tell entries className methodName descriptor isStatic).Told told)
    (small : code.code.length ≤ 0xFFFF) {layers : List Layer}
    (once : ∀ layer ∈ layers, layer.probe.PlacesOnce) (target : RewriteTarget)
    (method : MethodContext) :
    (runAll layers told (MethodRewrite.start target method)).2.body.code.PlacesOnce := by
  obtain ⟨items, decoded, labels⟩ := CodeAttribute.tell_labels body
  have rising := decode_spec decoded
  have numbered : (MethodRewrite.start target method).Numbered [] := .start target method
  refine (runAll_numbered once ?_ ?_ numbered).once
  · intro label among
    rw [List.nil_append, labels, List.mem_append, List.mem_singleton] at among
    refine decide_eq_false ?_
    simp only [Label.firstFresh]
    -- Told labels are offsets of the code or its length, so they are below all fresh ones.
    rcases among with own | rfl
    · obtain ⟨item, known, rfl⟩ := List.mem_map.1 own
      have inside := rising.inside item known
      simp only
      omega
    · simp only
      omega
  · rw [List.nil_append, labels, List.nodup_append]
    refine ⟨?_, List.pairwise_singleton _ _, ?_⟩
    · refine List.pairwise_map.2 (rising.rising.imp fun less same => ?_)
      have ids := congrArg Label.id same
      simp only at ids
      omega
    · rintro _ own _ last rfl
      obtain ⟨item, known, same⟩ := List.mem_map.1 own
      have inside := rising.inside item known
      have ids := congrArg Label.id (same.trans (List.mem_singleton.1 last))
      simp only at ids
      omega

end ClassWeave
