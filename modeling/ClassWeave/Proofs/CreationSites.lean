/-
# ClassWeave.Proofs.CreationSites -- what objects in frames stand for in the new code

The type of an object under construction names a label, and in the stack map the offset
of that label.  It should be that of the instruction which creates the object.

A label `Creates` if the next instruction behind it is a creating one.  `Sited` is what a
rewrite upholds: every object under construction that it knows of, or has put into a
frame, names a label that creates, unless the site has strayed in from a frame of the
method where the simulation knew of no such object.  It also says what the label of a
creating instruction is: one of its group, behind which no other instruction stands.

Injected code has no sites of its own to bring in, and a label that creates and is placed
once has the offset of a creating instruction (`Layout.Assembles.createsAt`).  So a new
frame names what it should, for all methods of a class (`weaveMethods_keeps_sites`).

A site that has strayed in is the label of an instruction of the method, and code may
have been injected between the two.  `Sample.revisiting` is a method whose new stack map
names an injected instruction as the creation of an object.
-/
import ClassWeave.Proofs.KeptFrames
import ClassWeave.Proofs.PlacedLabels
import ClassWeave.Proofs.Refinement
import ClassWeave.Proofs.UnderConstruction

set_option autoImplicit false

namespace ClassWeave

namespace Snippet

/-- The next instruction behind the label creates an object. -/
def Creates (code : Snippet) (site : Label) : Prop :=
  ∃ early late name rest, code = early ++ .label site :: late ∧
    instructions late = .type Opcode.new name :: rest

/-- No instruction stands behind the label. -/
def EndsAt (code : Snippet) (label : Label) : Prop :=
  ∃ early late, code = early ++ .label label :: late ∧ instructions late = []

theorem instructions_append (early late : Snippet) :
    instructions (early ++ late) = instructions early ++ instructions late :=
  List.filterMap_append

variable {code more : Snippet} {label : Label}

theorem Creates.append (creates : code.Creates label) (more : Snippet) :
    Creates (code ++ more) label := by
  obtain ⟨early, late, name, rest, rfl, next⟩ := creates
  refine ⟨early, late ++ more, name, rest ++ instructions more, by simp, ?_⟩
  rw [instructions_append, next]
  rfl

theorem EndsAt.append (ends : code.EndsAt label) (bare : instructions more = []) :
    EndsAt (code ++ more) label := by
  obtain ⟨early, late, rfl, none_⟩ := ends
  refine ⟨early, late ++ more, by simp, ?_⟩
  rw [instructions_append, none_, bare]
  rfl

theorem endsAt_of_mem (among : .label label ∈ more) (bare : instructions more = []) :
    EndsAt (code ++ more) label := by
  obtain ⟨early, late, rfl⟩ := List.append_of_mem among
  refine ⟨code ++ early, late, by simp, ?_⟩
  rw [instructions_append] at bare
  exact (List.append_eq_nil_iff.1 bare).2

/-- A label at the end creates what the next instruction does. -/
theorem EndsAt.creates (ends : code.EndsAt label) (name : String) :
    Creates (code ++ [.insn (.type Opcode.new name)]) label := by
  obtain ⟨early, late, rfl, none_⟩ := ends
  refine ⟨early, late ++ [.insn (.type Opcode.new name)], name, [], by simp, ?_⟩
  rw [instructions_append, none_]
  rfl

end Snippet

namespace MethodRewrite

/-- Every object under construction in a frame was created at its site, or its site has strayed in.
No instruction stands behind the labels of the group. -/
structure Sited (stray : Label → Prop) (rewrite : MethodRewrite) : Prop where
  sites : rewrite.SitesIn fun site => rewrite.body.code.Creates site ∨ stray site
  group : ∀ label ∈ rewrite.group, rewrite.body.code.EndsAt label

namespace Sited

variable {stray : Label → Prop} {before after rewrite : MethodRewrite}

theorem quiet (sited : before.Sited stray) (knowledge : after.knowledge = before.knowledge)
    (code : after.body.code = before.body.code) (group : after.group = before.group) :
    after.Sited stray := by
  refine ⟨?_, ?_⟩
  · rw [code]
    exact sited.sites.congr knowledge
  · rw [code, group]
    exact sited.group

/-- Labels and lines are added. -/
theorem grow (sited : before.Sited stray) {more : Snippet}
    (sites : after.SitesIn fun site => before.body.code.Creates site ∨ stray site)
    (code : after.body.code = before.body.code ++ more) (bare : Snippet.instructions more = [])
    (group : ∀ label ∈ after.group, label ∈ before.group ∨ .label label ∈ more) :
    after.Sited stray := by
  refine ⟨?_, fun label among => ?_⟩
  · rw [code]
    exact sites.mono fun site => Or.imp_left fun creates => creates.append more
  · rw [code]
    rcases group label among with old | new
    · exact (sited.group label old).append bare
    · exact Snippet.endsAt_of_mem new bare

theorem placeLabel (sited : rewrite.Sited stray) (label : Label) :
    (rewrite.placeLabel label).Sited stray :=
  have gains := rewrite.placeLabel_gains label
  sited.grow (sited.sites.placeLabel label) gains.code rfl gains.group

theorem labelHere (sited : rewrite.Sited stray) : rewrite.labelHere.2.Sited stray := by
  cases group : rewrite.group with
  | cons label others =>
    rw [labelHere_of_group rewrite group]
    exact sited
  | nil =>
    rw [labelHere_of_empty rewrite group]
    have fresh : rewrite.freshLabel.2.Sited stray := sited.quiet rfl rfl rfl
    exact fresh.placeLabel _

theorem bare_of_markers {nodes : List Node} (markers : Markers nodes) :
    Snippet.instructions nodes = [] := by
  refine List.filterMap_eq_nil_iff.2 fun node among => ?_
  obtain ⟨label, _, rfl⟩ := markers node among
  rfl

theorem originalFrame (sited : rewrite.Sited stray) {locals stack : List FrameType}
    (strays : ∀ site, rewrite.Strays locals stack site → stray site) :
    (rewrite.originalFrame locals stack).Sited stray := by
  obtain ⟨marker, markers, gains⟩ := rewrite.originalFrame_gains locals stack
  exact sited.grow (sited.sites.originalFrame fun site own => .inr (strays site own)) gains.code
    (bare_of_markers markers) gains.group

/-- A creating instruction has a label, behind which no other instruction stands. -/
theorem position (sited : rewrite.Sited stray) (insn : Instruction) :
    (rewrite.position insn).2.Sited stray ∧ (insn.opcode = Opcode.new →
      (rewrite.position insn).1 ∈ (rewrite.position insn).2.group) := by
  unfold MethodRewrite.position
  split
  · rename_i label others group
    refine ⟨sited, fun _ => ?_⟩
    simp only [group]
    exact List.mem_cons_self
  · split
    · exact ⟨sited.labelHere, fun _ => rewrite.labelHere_mem⟩
    · rename_i other
      exact ⟨sited, fun creates => absurd creates other⟩

theorem pass (sited : rewrite.Sited stray) {insn : Instruction} {position : Label}
    (here : insn.opcode = Opcode.new → position ∈ rewrite.group) :
    (rewrite.pass insn position).Sited stray := by
  have same := rewrite.places_pass insn position
  simp only [places, Prod.mk.injEq] at same
  obtain ⟨_, _, _, body⟩ := same
  have code : (rewrite.pass insn position).body.code =
      rewrite.body.code ++ [.insn insn.normal] := by
    rw [body]
    simp [MethodBody.add, MethodBody.code, MethodEvent.ofInstruction]
  refine ⟨?_, List.forall_mem_nil _⟩
  rw [code]
  -- The code only grows, so what creates goes on creating; the instruction may add its own site.
  have grown := sited.sites.mono fun site => Or.imp_left fun creates : rewrite.body.code.Creates site =>
    creates.append [.insn insn.normal]
  refine grown.pass ?_
  rintro name rfl
  exact .inl ((sited.group position (here rfl)).creates name)

theorem instruction (sited : rewrite.Sited stray) (insn : Instruction) :
    (rewrite.instruction insn).Sited stray := by
  unfold MethodRewrite.instruction
  split
  · exact sited.quiet rfl rfl rfl
  · obtain ⟨reached, here⟩ := sited.position insn
    exact reached.pass here

end Sited

end MethodRewrite

/-- The sites that an event brings in from outside. -/
def MethodEvent.Strays (rewrite : MethodRewrite) (site : Label) : MethodEvent → Prop
  | .frame locals stack => rewrite.Strays locals stack site
  | _ => False

namespace MethodRewrite.Sited

variable {stray : Label → Prop} {rewrite : MethodRewrite}

theorem step (sited : rewrite.Sited stray) {event : MethodEvent}
    (strays : ∀ site, event.Strays rewrite site → stray site) : (rewrite.step event).Sited stray := by
  cases event with
  | sizes | tryBlock | «variable» | maxs => exact sited.quiet rfl rfl rfl
  | frame locals stack => exact sited.originalFrame strays
  | label label => exact sited.placeLabel label
  | line number start =>
    have code : (rewrite.step (.line number start)).body.code =
        rewrite.body.code ++ [.line number start] := by
      simp [MethodRewrite.step, MethodBody.add, MethodBody.code]
    exact sited.grow (sited.sites.congr rfl) code rfl fun label among => .inl among
  | insn insn => exact sited.instruction insn
  | finish =>
    show rewrite.close.Sited stray
    unfold close
    split
    · exact sited
    · split
      · exact sited.quiet rfl rfl rfl
      · simp only
        split <;> exact sited.quiet rfl rfl rfl

end MethodRewrite.Sited

/-- The sites that a request brings in from outside. -/
def Injection.Request.Strays (rewrite : MethodRewrite) (site : Label) : Injection.Request → Prop
  | .event told => told.Strays { rewrite with injected := true } site
  | .frame _ wanted => .uninitialized site ∈ wanted.types
  | _ => False

namespace MethodRewrite.Sited

variable {stray : Label → Prop} {rewrite : MethodRewrite}

theorem allocate (sited : rewrite.Sited stray) (type : ValueType) :
    (rewrite.allocate type).2.Sited stray := by
  unfold MethodRewrite.allocate
  simp only
  split <;> exact sited.quiet rfl rfl rfl

theorem askFrame (sited : rewrite.Sited stray) (label : Label) {wanted : FrameRequest}
    (strays : ∀ site, .uninitialized site ∈ wanted.types → stray site) :
    (rewrite.askFrame label wanted).2.Sited stray := by
  have same := rewrite.outline_askFrame label wanted
  have kept : (rewrite.askFrame label wanted).2.outline.body.code = rewrite.body.code ∧
      (rewrite.askFrame label wanted).2.outline.group = rewrite.group := by
    rw [same]
    rcases rewrite.outline_requestFrame label wanted with
      same | same | ⟨_, _, _, _, _, same⟩
    all_goals
      rw [same]
      exact ⟨rfl, rfl⟩
  have sites := sited.sites.askFrame label fun site among =>
    (.inr (strays site among) : rewrite.body.code.Creates site ∨ stray site)
  exact sited.grow sites (kept.1.trans (List.append_nil _).symm) rfl
    fun label among => .inl (kept.2 ▸ among)

theorem perform (sited : rewrite.Sited stray) {request : Injection.Request}
    (strays : ∀ site, request.Strays rewrite site → stray site) :
    (rewrite.perform request).Sited stray := by
  cases request with
  | label | fault => exact sited.quiet rfl rfl rfl
  | event event =>
    have marked : Sited stray { rewrite with injected := true } := sited.quiet rfl rfl rfl
    exact marked.step strays
  | slot type => exact sited.allocate type
  | store type =>
    show (rewrite.storeNew type).2.Sited stray
    rw [storeNew_eq]
    split
    · have marked : Sited stray { (rewrite.allocate type).2 with injected := true } :=
        (sited.allocate type).quiet rfl rfl rfl
      exact marked.instruction _
    · exact sited.allocate type
  | handler block =>
    show (rewrite.addHandler block).2.Sited stray
    unfold addHandler
    simp only
    split <;> exact sited.quiet rfl rfl rfl
  | frame label wanted => exact sited.askFrame label strays

theorem start (stray : Label → Prop) (target : RewriteTarget) (method : MethodContext) :
    (MethodRewrite.start target method).Sited stray :=
  ⟨.start target method, List.forall_mem_nil _⟩

end MethodRewrite.Sited

/-! ## Runs -/

/-- Injected code brings no sites in. -/
def untagged : EventRule := fun _ _ rewrite request => ∀ site, ¬ request.Strays rewrite site

theorem permits_untagged : Permits untagged where
  label _ _ _ _ := id
  simple _ _ _ _ _ := id
  place _ _ _ _ _ _ := id
  store _ _ _ _ _ := id
  handler _ _ _ _ _ _ _ := id
  caught _ _ _ _ _ _ site := fun among : .uninitialized site ∈ [FrameType.object _] => by
    cases List.mem_singleton.1 among
  fault _ _ _ _ _ := id

namespace Snippet

variable {event : MethodEvent} {first : MethodRewrite}

theorem replay_untagged {targets : List Label} {renamed : List (Label × Label)} :
    ∀ (code : Snippet) (rewrite : MethodRewrite),
      (replay targets renamed code).Obeys (untagged event first) rewrite
  | [], _ => trivial
  | .label label :: rest, rewrite => by
    rw [replay]
    refine ⟨fun _ => id, ?_⟩
    split
    · refine ⟨fun _ => List.not_mem_nil, ?_⟩
      cases ((rewrite.inject (.label (rename renamed label))).askFrame
          (rename renamed label) .same).1 with
      | ok => exact replay_untagged rest _
      | error => trivial
    · exact replay_untagged rest _
  | .line _ _ :: rest, _ => ⟨fun _ => id, replay_untagged rest _⟩
  | .insn _ :: rest, _ => ⟨fun _ => id, replay_untagged rest _⟩

theorem withFresh_untagged {next : List (Label × Label) → Injection}
    (goesOn : ∀ renamed rewrite, (next renamed).Obeys (untagged event first) rewrite) :
    ∀ (labels : List Label) (renamed : List (Label × Label)) (rewrite : MethodRewrite),
      (withFresh renamed next labels).Obeys (untagged event first) rewrite
  | [], renamed, rewrite => goesOn renamed rewrite
  | _ :: labels, _, _ => ⟨fun _ => id, withFresh_untagged goesOn labels _ _⟩

/-- A snippet tells no frames, and those that it asks for are as they are. -/
theorem probeCode_untagged {probe : Probe} {code : Snippet} (same : probe.code = probeCode code) :
    probe.Obeys untagged := by
  intro event start rewrite site _
  rw [same]
  exact withFresh_untagged (fun _ => replay_untagged code) code.labels [] rewrite

end Snippet

theorem Requests.sited {stray : Label → Prop} {came : MethodEvent} {start before after : MethodRewrite}
    {requests : List Injection.Request} (run : Requests (untagged came start) before requests after)
    (sited : before.Sited stray) : after.Sited stray := by
  induction run with
  | done => exact sited
  | more permitted _ ih => exact ih (sited.perform fun site own => absurd own (permitted site))

/-- **Sites stray in with frames of the method only**, and only with those that name one where the
simulation knows of none. -/
theorem Layer.runAll_sited {stray : Label → Prop} : ∀ {events : List MethodEvent}
    {layers : List Layer} {start : MethodRewrite},
    (∀ layer ∈ layers, layer.probe.Obeys untagged) → start.Sited stray →
    (∀ early locals stack late, events = early ++ .frame locals stack :: late →
      ∀ site, (runAll layers early start).2.Strays locals stack site → stray site) →
    (runAll layers events start).2.Sited stray
  | [], _, _, _, sited, _ => sited
  | event :: events, layers, start, fine, sited, strays => by
    have one : (stepAll layers event start).2.Sited stray := by
      -- Only a frame of the method brings in sites, and no layer acts on it.
      cases event with
      | frame locals stack =>
        have idle : (MethodEvent.frame locals stack).Idle := trivial
        rw [stepAll_idle idle]
        exact sited.step (strays [] locals stack events rfl)
      | _ =>
        obtain ⟨reached, ⟨_, into⟩, _, out⟩ :=
          stepAll_served permits_untagged layers start fine (.refl start)
        exact out.sited ((into.sited sited).step nofun)
    have rest : (runAll (stepAll layers event start).1 events (stepAll layers event start).2).2.Sited
        stray := by
      refine runAll_sited (forall_stepAll event start fine) one ?_
      rintro early locals stack late rfl
      exact strays (event :: early) locals stack late rfl
    exact rest

/-! ## Sites in assembled code -/

/-- At the offset stands an instruction of the new code that creates an object, and it is read
there. -/
def AssembledCode.CreatesAt (entries : Entries) (nodes : Snippet) (layout : Layout)
    (assembled : AssembledCode) (offset : Nat) : Prop :=
  ∃ (number : Nat) (name : String) (cursor : Cursor),
    (Snippet.instructions nodes)[number]? = some (.type Opcode.new name) ∧
    layout.offsets[number]? = some offset ∧
    Decode.instruction entries assembled.code.length ⟨offset, assembled.code.drop offset⟩ =
      .ok ((offset, .type Opcode.new name), cursor)

namespace Layout.Assembles

variable {first entries : Entries} {nodes : Snippet} {layout : Layout} {assembled : AssembledCode}
  {site : Label}

/-- A label that creates, and is placed once, is the offset of a creating instruction. -/
theorem createsAt (assembles : layout.Assembles first entries nodes assembled)
    (creates : nodes.Creates site) (once : nodes.count (.label site) ≤ 1) :
    assembled.CreatesAt entries nodes layout (assembled.offset site) := by
  obtain ⟨early, late, name, rest, rfl, next⟩ := creates
  obtain ⟨offset, known, at_⟩ := assembles.offset_of_label (Snippet.not_mem_of_count once rfl)
  have split : Snippet.instructions (early ++ .label site :: late) =
      Snippet.instructions early ++ .type Opcode.new name :: rest := by
    rw [Snippet.instructions_append, ← next]
    rfl
  have spells := assembles.spells
  rw [split] at spells
  obtain ⟨before, behind, rows, ahead, onwards⟩ := Outcome.forall₂_append_left spells
  cases onwards with
  | @cons _ row _ after one _ =>
    obtain ⟨place, pieces⟩ := row
    -- The creating instruction is the next one behind the label, so both have one offset.
    have offsets : layout.offsets[(Snippet.instructions early).length]? = some place := by
      rw [offsets, rows, List.map_append, ahead.length_eq]
      simp
    obtain rfl : offset = place := by
      rw [List.getElem?_append_left (List.getElem?_eq_some_iff.1 offsets).1, offsets] at at_
      exact (Option.some.inj at_).symm
    have among : (offset, pieces) ∈ layout.placed.reverse := by
      rw [rows]
      exact List.mem_append_right _ List.mem_cons_self
    obtain ⟨_, found, cursor, reads, same⟩ := assembles.reads_placed among (one (.inl rfl))
      (List.forall_mem_nil _)
    obtain rfl : found = .type Opcode.new name := by
      cases found <;> cases same
      rfl
    rw [AssembledCode.offset_eq known]
    refine ⟨(Snippet.instructions early).length, name, cursor, ?_, offsets, reads⟩
    rw [split]
    simp

theorem offsetOf_eq (assembles : layout.Assembles first entries nodes assembled)
    (among : .label site ∈ nodes) : assembled.offsetOf site = .ok (assembled.offset site) := by
  obtain ⟨place, known, _⟩ := assembles.lays.label_ge among
  have placed : assembled.Places site := ⟨place, assembles.offsetOf_eq_ok.2 known⟩
  exact placed.offsetOf_eq

end Layout.Assembles

/-! ## Sites in stack maps -/

/-- The types that an entry tells. -/
def StackMapEntry.slots : StackMapEntry → List SlotEntry
  | same _ | sameExtended _ | chop _ _ => []
  | sameOne _ type | sameOneExtended _ type => [type]
  | append _ types => types
  | full _ locals stack => locals ++ stack

variable {kind : Label → Prop} {assembled : AssembledCode} {entries : Entries}

theorem SlotEntry.Stands.site {offset : UInt16} {types : List FrameType} {slots : List SlotEntry}
    (stand : List.Forall₂ (SlotEntry.Stands assembled entries) slots types)
    (sites : SitesIn kind types) (among : .uninitialized offset ∈ slots) :
    ∃ site, kind site ∧ assembled.offset site = offset.toNat := by
  obtain ⟨type, known, stands⟩ := Outcome.exists_of_forall₂ stand.flip _ among
  replace stands : FrameType.uninitialized ⟨offset.toNat⟩ =
      type.relabel (AssembledCode.landing assembled.labels) := Except.ok.inj stands
  cases type with
  | uninitialized site =>
    refine ⟨site, sites site known, ?_⟩
    rw [AssembledCode.offset, ← FrameType.uninitialized.inj stands]
  | _ => cases stands

/-- The objects under construction in a table are those in the frames that it tells. -/
theorem StackMap.Tells.site {next : Nat} {rows : List (Nat × PinnedFrame)}
    {table : List StackMapEntry} (tells : Tells assembled entries next rows table)
    (sites : ∀ row ∈ rows, row.2.SitesIn kind) :
    ∀ entry ∈ table, ∀ offset, .uninitialized offset ∈ entry.slots →
      ∃ site, kind site ∧ assembled.offset site = offset.toNat := by
  induction tells with
  | nil => exact fun _ among => nomatch among
  | cons locals_ stack_ _ ih =>
    obtain ⟨own, others⟩ := List.forall_mem_cons.1 sites
    refine List.forall_mem_cons.2 ⟨fun offset among => ?_, ih others⟩
    rcases List.mem_append.1 among with local_ | value
    · exact SlotEntry.Stands.site locals_ own.locals local_
    · exact SlotEntry.Stands.site stack_ own.stack value

/-! ## Whole methods -/

/-- A site that its instruction has left behind.  A frame of the method names the site where the
simulation knows of no such object, and injected instructions stand between the label of the site
and the instruction of the method that creates the object. -/
structure Displaced (items : List (Nat × Instruction)) (marked : List (Mark × Node))
    (layers : List Layer) (told : List MethodEvent) (start : MethodRewrite) (site : Label) :
    Prop where
  strays : ∃ early locals stack late, told = early ++ .frame locals stack :: late ∧
    (Layer.runAll layers early start).2.Strays locals stack site
  moved : ∃ name early between late, (site.id, .type Opcode.new name) ∈ items ∧
    marked = early ++ (.own, .label site) ::
      (between ++ (.own, .insn (.type Opcode.new name)) :: late) ∧
    (∀ item ∈ between, Between item) ∧ Snippet.instructions (between.map Prod.snd) ≠ []

/-- The label of a site that stands in the new code more than once, so that its offset is that of the
last place.  The code of a probe places a label more than once. -/
structure Doubled (marked : List (Mark × Node)) (layers : List Layer) (site : Label) : Prop where
  twice : 1 < (marked.map Prod.snd).count (.label site)
  probe : ∃ layer ∈ layers, ¬ layer.probe.PlacesOnce

/-- The new payload of a method, whose events went through the layers.  An offset that its stack map
names as that of a creating instruction is that of one, unless its site is displaced or doubled. -/
structure SitesKept (items : List (Nat × Instruction)) (layers : List Layer)
    (told : List MethodEvent) (start : MethodRewrite) (final : Entries) (payload : Bytes) where
  marked : List (Mark × Node)
  layout : Layout
  assembled : AssembledCode
  code : CodeAttribute
  tables : CodeTables
  run : ∃ actions, actions.filterMap Action.own? = told ∧
    actions.foldl MethodRewrite.act start = (Layer.runAll layers told start).2 ∧
    start.trace actions = marked
  assembles : ∃ middle,
    (marked.map Prod.snd).foldlM Layout.add Layout.empty start.target.pool = (.ok layout, middle) ∧
    assemble (marked.map Prod.snd) start.target.pool = (.ok assembled, middle)
  written : payload = code.write
  array : code.code = assembled.code
  carries : code.Carries final tables
  created : ∀ entry ∈ tables.frames, ∀ offset, .uninitialized offset ∈ entry.slots →
    ∃ site, assembled.offsetOf site = .ok offset.toNat ∧
      (assembled.CreatesAt final (marked.map Prod.snd) layout offset.toNat ∨
        Displaced items marked layers told start site ∨ Doubled marked layers site)

section Methods

variable {className : String} {code : CodeAttribute} {layers : List Layer}
  {told : List MethodEvent} {methodName descriptor : String} {isStatic : Bool}
  {items : List (Nat × Instruction)} {marked : List (Mark × Node)} {start : MethodRewrite}

/-- The frames that a method had name creating instructions of the method. -/
def CodeAttribute.NamesCreations (items : List (Nat × Instruction)) (frames : List PinnedFrame) :
    Prop :=
  ∀ frame ∈ frames, frame.SitesIn fun site => ∃ name, (site.id, .type Opcode.new name) ∈ items

/-- A site that has strayed in is that of an instruction of the method: its label still creates, or
it is displaced. -/
theorem Woven.creates_or_displaced
    (body : (code.tell entries className methodName descriptor isStatic).Told told)
    (named : ∀ frames, code.frames entries className methodName descriptor isStatic = .ok frames →
      CodeAttribute.NamesCreations items frames)
    (woven : Woven code.code.length items marked) {early late : List MethodEvent}
    {locals stack : List FrameType} {site : Label}
    (split : told = early ++ .frame locals stack :: late)
    (strays : (Layer.runAll layers early start).2.Strays locals stack site) :
    Snippet.Creates (marked.map Prod.snd) site ∨ Displaced items marked layers told start site := by
  subst split
  obtain ⟨_, _, frames, _, known, among⟩ := CodeAttribute.frame_comes body
  have own := named frames known _ among
  have original : ∃ name, (site.id, .type Opcode.new name) ∈ items := by
    rcases strays.somewhere with ⟨slot, _, here, _⟩ | ⟨depth, here, _⟩
    · exact own.locals.expandLocals site (List.mem_of_getElem? here)
    · exact own.stack site (List.mem_reverse.1 (List.mem_of_getElem? here))
  obtain ⟨name, item⟩ := original
  obtain ⟨ahead, between, behind, whole, quiet⟩ := woven.around item
  -- Whether an instruction was injected between the label and the creating instruction decides.
  by_cases nothing : Snippet.instructions (between.map Prod.snd) = []
  · refine .inl ⟨ahead.map Prod.snd, between.map Prod.snd ++ .insn (.type Opcode.new name) ::
      behind.map Prod.snd, name, Snippet.instructions (behind.map Prod.snd), ?_, ?_⟩
    · rw [whole]
      simp [Instruction.normal]
    · rw [Snippet.instructions_append, nothing]
      rfl
  · exact .inr ⟨⟨early, locals, stack, late, rfl, strays⟩, name, ahead, between, behind, item, whole,
      quiet, nothing⟩

/-- The body of a method, with the code of snippets in it. -/
theorem sitesKept_of_serialize (body : (code.tell entries className methodName descriptor
      isStatic).Told told)
    (harmless : ∀ layer ∈ layers, layer.probe.Harmless)
    (bare : ∀ layer ∈ layers, layer.probe.Obeys untagged) (small : code.code.length ≤ 0xFFFF)
    (decoded : decode entries code.code = .ok items)
    (named : ∀ frames, code.frames entries className methodName descriptor isStatic = .ok frames →
      CodeAttribute.NamesCreations items frames)
    {target : RewriteTarget} {method : MethodContext} (sound : target.pool.Sound) {payload : Bytes}
    {after : ConstantPool}
    (done : (Layer.runAll layers told (MethodRewrite.start target method)).2.serialize target.pool =
      (.ok payload, after)) {final : Entries} (later : after.entries.Extends final) :
    Nonempty (SitesKept items layers told (MethodRewrite.start target method) final payload) := by
  let start := MethodRewrite.start target method
  obtain ⟨items', _, actions, marked, _, decoded', _, events, strand, woven, _⟩ :=
    Layer.runAll_woven harmless body (rfl : start.ledger.phase = .open)
  obtain rfl : items' = items := Except.ok.inj (decoded'.symm.trans decoded)
  have whole : (Layer.runAll layers told start).2.body.code = marked.map Prod.snd :=
    strand.gains.code.trans (List.nil_append _)
  have sited : (Layer.runAll layers told start).2.Sited fun site =>
      ∃ early locals stack late, told = early ++ .frame locals stack :: late ∧
        (Layer.runAll layers early start).2.Strays locals stack site :=
    Layer.runAll_sited bare (.start _ target method) fun early locals stack late split site strays =>
      ⟨early, locals, stack, late, split, strays⟩
  obtain ⟨assembled, middle, _, _, _, tables, assembles, onwards, _, _, written, carries, fills⟩ :=
    MethodRewrite.serialize_eq_ok sound done
  rw [whole] at assembles
  obtain ⟨layout, laid, assembles'⟩ := assemble_eq_ok sound assembles
  have final_ := assembles'.extends_ (onwards.extends_.trans later)
  obtain ⟨rows, chosen, tells⟩ := fills.frames
  have recorded : ∀ row ∈ rows, row.2 ∈ (Layer.runAll layers told start).2.body.frames.toList := by
    intro row among
    have own := StackMap.mem_of_kept chosen row among
    split at own
    · exact own
    · cases own
  refine ⟨⟨marked, layout, assembled, _, tables, ⟨actions, events, strand.replay, strand.trace⟩,
    ⟨middle, laid, assembles⟩, written, rfl, carries.extends_ later, fun entry among offset names => ?_⟩⟩
  obtain ⟨site, known, at_⟩ := tells.site
    (fun row among => sited.sites.frames row.2 (recorded row among)) entry among offset names
  have sources : Snippet.Creates (marked.map Prod.snd) site ∨
      Displaced items' marked layers told start site := by
    rcases known with creates | ⟨early, locals, stack, late, split, strays⟩
    · exact .inl (whole ▸ creates)
    · exact woven.creates_or_displaced body named split strays
  -- Either way the label is placed, so it has an offset in the new code.
  have placed : .label site ∈ marked.map Prod.snd := by
    rcases sources with ⟨early, late, _, _, split, _⟩ | displaced
    · rw [split]
      exact List.mem_append_right _ List.mem_cons_self
    · obtain ⟨_, early, _, _, _, split, _⟩ := displaced.moved
      rw [split, List.map_append]
      exact List.mem_append_right _ List.mem_cons_self
  refine ⟨site, at_ ▸ final_.offsetOf_eq placed, ?_⟩
  rcases Nat.lt_or_ge 1 ((marked.map Prod.snd).count (.label site)) with twice | once
  · refine .inr (.inr ⟨twice, ?_⟩)
    by_contra all
    push Not at all
    have one := Layer.runAll_places_once body small all target method site
    rw [whole] at one
    omega
  · rcases sources with creates | displaced
    · exact .inl (at_ ▸ final_.createsAt creates once)
    · exact .inr (.inl displaced)

end Methods

/-! ## All methods of a class -/

/-- A method of the class with its new payload.  If the frames of the method name creating
instructions of the method, its new frames name creating instructions of the new code, but for sites
that are displaced or doubled. -/
def ClassFile.KeepsSites (file : ClassFile) (probes : List Probe) (className : String)
    (final : Entries) (index : Nat) (payload : Bytes) : Prop :=
  ∃ member method before code told items, (member, index) ∈ file.methods.zipIdx ∧
    file.entries.utf8 member.name = .ok method.name ∧
    file.entries.utf8 member.descriptor = .ok method.descriptor ∧
    member.code? file.entries = .ok (some code) ∧
    (member.tell file.entries className method.name method.descriptor).Told (told ++ [.finish]) ∧
    decode file.entries code.code = .ok items ∧
    (code.code.length ≤ 0xFFFF →
      (∀ frames, code.frames file.entries className method.name method.descriptor
        (AccessFlag.static.isIn member.access) = .ok frames →
        CodeAttribute.NamesCreations items frames) →
      Nonempty (SitesKept items
        ((probes.filter fun probe => probe.appliesTo method.name method.descriptor).map
          fun probe => Layer.start probe method)
        told (MethodRewrite.start before method) final payload))

/-- **Objects under construction keep their sites**, whatever snippets the probes inject into a
class: where a new frame names an object under construction, it is created there by an instruction
of the new code.  The sites of the method that the simulation did not know of may be displaced. -/
theorem weaveMethods_keeps_sites {probes : List Probe} {className : String} {file : ClassFile}
    (snippets : ∀ probe ∈ probes, ∃ code, probe.code = Snippet.probeCode code)
    {options : Options} {hierarchy : Hierarchy} {target : RewriteTarget} {fault : Option ReadError}
    (woven : weaveMethods probes file.entries className options file.methods.zipIdx
      (RewriteTarget.start className file.major (ConstantPool.ofEntries file.entries) hierarchy
        options) = (target, fault))
    {index : Nat} {payload : Bytes} (rewritten : (index, payload) ∈ target.rewritten) :
    file.KeepsSites probes className target.pool.entries index payload := by
  have harmless := Snippet.probes_harmless snippets
  obtain ⟨before, after, member, name, descriptor, own⟩ :=
    weaveMethods_rewrites harmless woven rewritten
  obtain ⟨code, told, known, whole, done⟩ := own.rewrites
  let method : MethodContext := ⟨index, member.access, name, descriptor⟩
  obtain ⟨items, _, _, _, _, decoded, _⟩ := CodeAttribute.tell_told whole
  refine ⟨member, method, before, code, told, items, own.among, own.named, own.described, known,
    Member.tell_of_code known whole, decoded, fun small named => ?_⟩
  refine sitesKept_of_serialize whole
    (fun layer among => harmless _ (Layer.probe_mem_of_start among)) ?_ small decoded named
    (own.grown.sound (ConstantPool.ofEntries_sound _)) done own.later.extends_
  intro layer among
  obtain ⟨snippet, same⟩ := snippets layer.probe (Layer.probe_mem_of_start among)
  exact Snippet.probeCode_untagged same

/-- A `nop` before every instruction in class `A` that creates an object. -/
def Sample.nopBeforeNew : Transformer :=
  ⟨[⟨"A", "", none, ⟨"", "", "", "", 0, .new, .before⟩,
    Snippet.probeCode [.insn (.simple Opcode.nop)]⟩], Options.standard⟩

/-- An object is created at the start, and a frame behind it names it. -/
def Sample.creating : Bytes :=
  Sample.loopClass [0, 2, 0, 1, 0, 0, 0, 11, 187, 0, 2, 26, 153, 0, 5, 87, 177, 87, 177, 0, 0, 0, 1,
    0, 6, 0, 0, 0, 6, 0, 1, 73, 8, 0, 0]

/-- The code of `Sample.creating` with the `nop`.  The frame names the object by its new offset. -/
def Sample.creatingOn : Bytes :=
  [0, 2, 0, 1, 0, 0, 0, 12, 0, 187, 0, 2, 26, 153, 0, 5, 87, 177, 87, 177, 0, 0, 0, 1,
    0, 6, 0, 0, 0, 13, 0, 1, 255, 0, 10, 0, 1, 1, 0, 1, 8, 0, 1]

theorem weaveMethods_keeps_sites_creating : ∃ file target,
    ClassFile.read Sample.creating = .ok file ∧
    (∀ probe ∈ Sample.nopBeforeNew.probes, ∃ code, probe.code = Snippet.probeCode code) ∧
    (weaveMethods Sample.nopBeforeNew.probes file.entries "A" Options.standard file.methods.zipIdx
      (RewriteTarget.start "A" file.major (ConstantPool.ofEntries file.entries) Hierarchy.flat
        Options.standard)).1 = target ∧
    (0, Sample.creatingOn) ∈ target.rewritten ∧
    file.KeepsSites Sample.nopBeforeNew.probes "A" target.pool.entries 0 Sample.creatingOn := by
  have runs : ((ClassFile.read Sample.creating).toOption.any fun file =>
      decide ((0, Sample.creatingOn) ∈
        (weaveMethods Sample.nopBeforeNew.probes file.entries "A" Options.standard
          file.methods.zipIdx (RewriteTarget.start "A" file.major
            (ConstantPool.ofEntries file.entries) Hierarchy.flat
            Options.standard)).1.rewritten)) = true := by decide +kernel
  have snippets : ∀ probe ∈ Sample.nopBeforeNew.probes,
      ∃ code, probe.code = Snippet.probeCode code := by
    intro probe among
    obtain rfl := List.mem_singleton.1 among
    exact ⟨_, rfl⟩
  obtain ⟨file, read, written⟩ := Outcome.exists_of_any runs
  have rewritten := of_decide_eq_true written
  exact ⟨file, _, read, snippets, rfl, rewritten, weaveMethods_keeps_sites snippets rfl rewritten⟩

/-! ## Sites that are displaced -/

/-- An object is created behind the target of a backward jump, and the frame at the target names it. -/
def Sample.revisiting : Bytes :=
  Sample.loopClass [0, 2, 0, 1, 0, 0, 0, 13, 167, 0, 4, 87, 187, 0, 2, 26, 153, 255, 251, 87, 177, 0, 0,
    0, 1, 0, 6, 0, 0, 0, 7, 0, 2, 67, 8, 0, 4, 0]

/-- The code of `Sample.revisiting` with the `nop`. -/
def Sample.revisitingOn : Bytes :=
  [0, 2, 0, 1, 0, 0, 0, 14, 167, 0, 4, 87, 0, 187, 0, 2, 26, 153, 255, 250, 87, 177, 0, 0, 0, 1,
    0, 6, 0, 0, 0, 21, 0, 2, 255, 0, 3, 0, 1, 1, 0, 1, 8, 0, 4, 255, 0, 0, 0, 1, 1, 0, 0]

/-- The methods of a class `A` that have code, each rewritten with the `nop` up to its end. -/
def Sample.nopped (bytes : Bytes) : Except ReadError (List MethodRewrite) := do
  let file ← ClassFile.read bytes
  let codes ← file.methods.mapM fun member => member.code? file.entries
  let method : MethodContext := ⟨0, 9, "m", "(I)V"⟩
  return codes.reduceOption.map fun code =>
    (Layer.runAll (Sample.nopBeforeNew.probes.map fun probe => Layer.start probe method)
      (code.tell file.entries "A" "m" "(I)V" true).events
      (.start (.start "A" file.major (ConstantPool.ofEntries file.entries) Hierarchy.flat
        Options.standard) method)).2

/-- The instructions of the methods of a class. -/
def ClassFile.instructions (bytes : Bytes) :
    Except ReadError (List (List (Nat × Instruction))) := do
  let file ← read bytes
  file.methods.mapM fun member => do
    match ← member.code? file.entries with
    | none => return []
    | some code => decode file.entries code.code

/-- Only the backward jump leads to offset 3, where the simulation has no operand when the frame comes
in.  So the frame keeps offset 4 for the object, where the `nop` stands now. -/
theorem nopBeforeNew_displaces_site :
    (Sample.nopped Sample.revisiting).map (fun rewrites => rewrites.map fun rewrite =>
      (rewrite.fault, (rewrite.serialize rewrite.target.pool).1)) =
        .ok [(none, .ok Sample.revisitingOn)] ∧
    ClassFile.stackMaps Sample.revisiting =
      .ok [[⟨⟨3⟩, [.int], [.uninitialized ⟨4⟩]⟩, ⟨⟨4⟩, [.int], []⟩]] ∧
    ClassFile.instructions Sample.revisiting = .ok [[(0, .jump Opcode.goto ⟨4⟩),
      (3, .simple Opcode.pop), (4, .type Opcode.new "A"), (7, .simple Opcode.iload0),
      (8, .jump Opcode.ifeq ⟨3⟩), (11, .simple Opcode.pop), (12, .simple Opcode.voidReturn)]] ∧
    ClassFile.stackMaps (Sample.loopClass Sample.revisitingOn) =
      .ok [[⟨⟨3⟩, [.int], [.uninitialized ⟨4⟩]⟩, ⟨⟨4⟩, [.int], []⟩]] ∧
    ClassFile.instructions (Sample.loopClass Sample.revisitingOn) =
      .ok [[(0, .jump Opcode.goto ⟨4⟩), (3, .simple Opcode.pop), (4, .simple Opcode.nop),
        (5, .type Opcode.new "A"), (8, .simple Opcode.iload0), (9, .jump Opcode.ifeq ⟨3⟩),
        (12, .simple Opcode.pop), (13, .simple Opcode.voidReturn)]] := by
  refine ⟨?_, by decide +kernel, by decide +kernel, by decide +kernel, by decide +kernel⟩
  simp only [MethodRewrite.serialize, AssembledCode.encode, AssembledCode.stackMapTable,
    StackMap.encode_by_insertion]
  decide +kernel

end ClassWeave
