/-
# ClassWeave.Proofs.SnippetEmissions -- snippets that are emitted into a method

An `Emission` is a stretch of what is done to a method where a snippet is emitted and
nothing has gone wrong by its end.  Wherever the code of a probe runs that is a snippet,
there is one (`Emission.of_firing`).  What comes of it is the snippet itself under other
labels, which nothing else in the method has got or will get
(`Snippet.emission_faithful`), whatever other code is injected there and however often.
-/
import ClassWeave.Proofs.SnippetNames
import ClassWeave.Proofs.ToldLabels

set_option autoImplicit false

namespace ClassWeave

/-! ## Emissions -/

namespace Snippet

open MethodRewrite

/-- Among what is done to a method a snippet is emitted, and nothing has gone wrong by then. -/
structure Emission (code : Snippet) (start : MethodRewrite) (actions : List Action) where
  early : List Action
  late : List Action
  whole : actions =
    early ++ ((code.injection.requests (early.foldl act start)).map .request ++ late)
  fine : (code.injection.run (early.foldl act start)).2.fault = none

namespace Emission

variable {code : Snippet} {start : MethodRewrite} {actions : List Action}
  (emission : Emission code start actions)

/-- The method when the snippet comes. -/
def reached : MethodRewrite := emission.early.foldl act start

/-- What the snippet asks for. -/
def asked : List Injection.Request := code.injection.requests emission.reached

def own : List Action := emission.asked.map .request

/-- The method after it. -/
def after : MethodRewrite := (code.injection.run emission.reached).2

/-- The label that a label of the snippet is emitted as. -/
def name : Label → Label := code.naming emission.reached.nextLabel

/-- The labels that the rewrite makes for itself meanwhile. -/
def made : List Label := emission.reached.made emission.own

/-- The snippet as it is emitted. -/
def nodes : Snippet := code.map (Node.emitted emission.name)

theorem asked_eq : emission.asked = List.replicate code.labels.length .label ++
    code.flatMap (Node.asks code.jumpTargets emission.name) :=
  injection_requests emission.fine

theorem own_eq : emission.own = List.replicate code.labels.length (.request .label) ++
    Node.askings code.jumpTargets emission.name code := by
  rw [own, asked_eq, List.map_append, List.map_replicate]
  rfl

theorem foldl_own : emission.own.foldl act emission.reached = emission.after := by
  rw [own, List.foldl_map]
  exact Injection.foldl_requests _ _

/-- The snippet gets its labels, and the rewrite may make some. -/
theorem handed_own : emission.reached.handed emission.own =
    code.labels.map emission.name ++ emission.made := by
  obtain ⟨reached, labels, none_⟩ := ask_labels code.labels.length emission.reached
  rw [name, map_naming, made, own_eq, handed_append, made_append, labels, none_, List.nil_append]
  exact congrArg (_ ++ ·) (handed_eq_made Node.label_not_mem_askings)

theorem handed_eq : start.handed actions = start.handed emission.early ++
    ((code.labels.map emission.name ++ emission.made) ++
      emission.after.handed emission.late) := by
  refine (congrArg start.handed emission.whole).trans ?_
  rw [← handed_own, ← foldl_own, handed_append, handed_append]
  rfl

/-- What a snippet is given comes up in every run that begins with it. -/
theorem name_mem_handed {label : Label} (among : label ∈ code.labels) {more : List Action}
    (goesOn : emission.early ++ emission.own <+: more) :
    emission.name label ∈ start.handed more := by
  obtain ⟨rest, rfl⟩ := goesOn
  rw [handed_append, handed_append]
  refine List.mem_append_left _ (List.mem_append_right _ ?_)
  show _ ∈ emission.reached.handed emission.own
  rw [handed_own]
  exact List.mem_append_left _ (List.mem_map_of_mem among)

/-- What came up earlier is not given to a snippet. -/
theorem name_not_mem_early {label : Label} (among : label ∈ code.labels) :
    emission.name label ∉ start.handed emission.early := by
  intro early
  have once := start.handed_nodup actions
  rw [handed_eq] at once
  refine (List.nodup_append.1 once).2.2 _ early _ ?_ rfl
  exact List.mem_append_left _ (List.mem_append_left _ (List.mem_map_of_mem among))

theorem name_not_mem_made {label : Label} (among : label ∈ code.labels) :
    emission.name label ∉ emission.made := by
  intro own
  have once := start.handed_nodup actions
  rw [handed_eq] at once
  have meanwhile := (List.nodup_append.1 (List.nodup_append.1 once).2.1).1
  exact (List.nodup_append.1 meanwhile).2.2 _ (List.mem_map_of_mem among) _ own rfl

theorem isFresh_name {label : Label} (among : label ∈ code.labels) :
    (emission.name label).isFresh = true :=
  Label.isFresh_of_mem_fresh (code.naming_mem _ among)

/-- A snippet that is emitted again gets other labels. -/
theorem names_apart {more : Snippet} (other : Emission more start actions)
    (later : emission.early ++ emission.own <+: other.early) {label label' : Label}
    (among : label ∈ code.labels) (among' : label' ∈ more.labels) :
    emission.name label ≠ other.name label' := by
  intro same
  have early := emission.name_mem_handed among later
  rw [same] at early
  exact other.name_not_mem_early among' early

theorem events_eq : emission.asked.filterMap Injection.Request.event? =
    emission.nodes.map .ofNode := by
  rw [asked_eq, List.filterMap_append, List.filterMap_replicate_of_none rfl, List.nil_append,
    Node.events_asked, nodes, List.map_map]
  rfl

theorem frames_eq : emission.asked.filterMap Injection.Request.frame? =
    (code.placed.filter fun label => decide (label ∈ code.ledTo)).map fun label =>
      (emission.name label, .same) := by
  have leads : (fun label => code.jumpTargets.contains label) =
      fun label => decide (label ∈ code.ledTo) := by
    funext label
    rw [Bool.eq_iff_iff, List.contains_iff_mem, decide_eq_true_iff]
    exact mem_jumpTargets
  rw [asked_eq, List.filterMap_append, List.filterMap_replicate_of_none rfl, List.nil_append,
    Node.frames_asked, leads]

/-- The code grows by the snippet as it is emitted, and labels that the rewrite makes. -/
theorem written : ∃ written, emission.after.body.code = emission.reached.body.code ++ written ∧
    written.filter (fun node => decide (node ∉ emission.made.map Node.label)) =
      emission.nodes := by
  let advanced := emission.reached.advance code.labels.length
  obtain ⟨reached, _, none_⟩ := ask_labels code.labels.length emission.reached
  have foldl : (Node.askings code.jumpTargets emission.name code).foldl act advanced =
      emission.after := by
    rw [← foldl_own, own_eq, List.foldl_append, reached]
  have made_ : advanced.made (Node.askings code.jumpTargets emission.name code) =
      emission.made := by
    rw [made, own_eq, made_append, reached, none_]
    rfl
  have apart : ∀ node ∈ code, node.emitted emission.name ∉ emission.made.map Node.label := by
    intro node among made
    obtain ⟨label, known, same⟩ := List.mem_map.1 made
    cases node with
    | label own =>
      cases same
      exact emission.name_not_mem_made (mem_labels among List.mem_cons_self) known
    | line | insn => cases same
  have fine : ((Node.askings code.jumpTargets emission.name code).foldl act advanced).fault =
      none := foldl ▸ emission.fine
  have written := Node.askings_written fine (List.Subset.refl _) (made_.symm ▸ apart)
  rw [foldl, made_] at written
  exact written

/-- What comes of a snippet in a method that is told by some events. -/
structure Faithful (told : List MethodEvent) : Prop where
  /-- The renaming is injective. -/
  injective : ∀ one ∈ code.labels, ∀ other ∈ code.labels,
    emission.name one = emission.name other → one = other
  placed : (code.placed.map emission.name).Nodup
  /-- No label of the method is used. -/
  foreign : ∀ label ∈ code.labels, ∀ event ∈ told, ¬ event.Names (emission.name label)
  /-- All labels that come up in the run are different, and the snippet's own are among them. -/
  once : (start.handed actions).Nodup
  handed : start.handed actions = start.handed emission.early ++
    ((code.labels.map emission.name ++ emission.made) ++ emission.after.handed emission.late)
  apart : ∀ {more : Snippet} (other : Emission more start actions),
    emission.early ++ emission.own <+: other.early ∨
      other.early ++ other.own <+: emission.early →
    ∀ label ∈ code.labels, ∀ label' ∈ more.labels, emission.name label ≠ other.name label'
  /-- The nodes are told in their order, each under the new names. -/
  events : emission.asked.filterMap Injection.Request.event? = emission.nodes.map .ofNode
  /-- Frames are asked for at the labels that jumps and switches of the snippet lead to. -/
  frames : emission.asked.filterMap Injection.Request.frame? =
    (code.placed.filter fun label => decide (label ∈ code.ledTo)).map fun label =>
      (emission.name label, .same)
  written : ∃ written, emission.after.body.code = emission.reached.body.code ++ written ∧
    written.filter (fun node => decide (node ∉ emission.made.map Node.label)) = emission.nodes
  /-- Labels stand at the nodes where they stood. -/
  references : emission.nodes.references = code.references

end Emission

/-- **A snippet is emitted as it is, under labels that belong to nothing else in the method.**  They
are none of the method's own, and of all that come up in the run, whoever asks for them or makes
them, each is given to one label of the snippet alone. -/
theorem emission_faithful {member : Member} {entries : Entries}
    (small : ∀ code, member.code? entries = .ok (some code) → code.code.length ≤ 0xFFFF)
    (className name descriptor : String) (layers : List Layer) (target : RewriteTarget)
    (method : MethodContext) {code : Snippet} (once : code.PlacesOnce)
    (emission : Emission code (MethodRewrite.start target method)
      (Layer.record layers (member.tell entries className name descriptor).events
        (MethodRewrite.start target method))) :
    emission.Faithful (member.tell entries className name descriptor).events where
  injective _ among _ among' same := code.naming_injective _ among among' same
  placed := code.placed_naming_nodup _ once
  foreign label among event told named := by
    have old := Member.tell_names small className name descriptor event told _ named
    rw [Label.IsOld, emission.isFresh_name among] at old
    cases old
  once := handed_nodup _ _
  handed := emission.handed_eq
  apart other order label among label' among' := by
    rcases order with later | earlier
    · exact emission.names_apart other later among among'
    · exact (other.names_apart emission earlier among' among).symm
  events := emission.events_eq
  frames := emission.frames_eq
  written := emission.written
  references := code.references_naming _

end Snippet

/-! ## Snippets of probes -/

namespace Layer

/-- The method when the range of an error layer is closed and its handler stands. -/
def rangeClosed? (start : Label) (rewrite : MethodRewrite) : Option MethodRewrite :=
  let (stop, rewrite) := rewrite.freshLabel
  let (handler, rewrite) := rewrite.freshLabel
  let rewrite := (rewrite.inject (.label stop)).inject (.label handler)
  match rewrite.addHandler ⟨start, stop, handler, none⟩ with
  | (.error _, _) => none
  | (.ok (), rewrite) =>
    match rewrite.askFrame handler (.replace [.object ClassName.throwable]) with
    | (.error _, _) => none
    | (.ok (), rewrite) => some rewrite

/-- The method when the code of the probe runs in the course of a deed, if it does. -/
def firing? (layer : Layer) (rewrite : MethodRewrite) : Deed → Option MethodRewrite
  | .fire none => some rewrite
  | .fire (some type) => some (capture type rewrite).2
  | .openRange => none
  | .closeRange =>
    match layer.watch with
    | .error _ (some start) =>
      (rangeClosed? start rewrite).map fun closed => (capture ValueType.throwable closed).2
    | _ => none

variable {layer : Layer} {code : Snippet} {rewrite reached : MethodRewrite}

theorem closeRangeRequests_firing (layer : Layer) {start : Label} {closed : MethodRewrite}
    (stands : rangeClosed? start rewrite = some closed) :
    ∃ ahead behind, layer.closeRangeRequests start rewrite =
        ahead ++ (layer.fireWithRequests ValueType.throwable closed ++ behind) ∧
      ahead.foldl MethodRewrite.perform rewrite = closed := by
  revert stands
  unfold rangeClosed? closeRangeRequests
  simp only
  -- The labels are made opaque, or the requests would be computed along with the state.
  generalize stop : rewrite.freshLabel.1 = stopLabel
  generalize handler : rewrite.freshLabel.2.freshLabel.1 = handlerLabel
  generalize both : (rewrite.freshLabel.2.freshLabel.2.inject (.label stopLabel)).inject
    (.label handlerLabel) = placed
  rcases accepted : placed.addHandler ⟨start, stopLabel, handlerLabel, none⟩ with
    ⟨cause | _, added⟩
  · intro stands
    cases stands
  · simp only
    rcases answered : added.askFrame handlerLabel (.replace [.object ClassName.throwable]) with
      ⟨cause | _, granted⟩
    · intro stands
      cases stands
    · intro stands
      cases stands
      refine ⟨[.label, .label, .event (.label stopLabel), .event (.label handlerLabel),
        .handler ⟨start, stopLabel, handlerLabel, none⟩,
        .frame handlerLabel (.replace [.object ClassName.throwable])],
        [.event (.insn (.simple Opcode.athrow))], rfl, ?_⟩
      calc _ = ((((rewrite.freshLabel.2.freshLabel.2.inject (.label stopLabel)).inject
              (.label handlerLabel)).addHandler ⟨start, stopLabel, handlerLabel, none⟩).2.askFrame
              handlerLabel (.replace [.object ClassName.throwable])).2 := rfl
        _ = closed := by rw [both, accepted, answered]

/-- A layer whose code is a snippet asks for what the snippet asks for, wherever it fires. -/
theorem deedRequests_firing (snippet : layer.probe.code = Snippet.probeCode code) {deed : Deed}
    (fires : layer.firing? rewrite deed = some reached) :
    ∃ ahead behind, layer.deedRequests rewrite deed =
        ahead ++ (code.injection.requests reached ++ behind) ∧
      ahead.foldl MethodRewrite.perform rewrite = reached := by
  have fired (valueSlot : Option UInt16) (reached : MethodRewrite) :
      layer.fireRequests valueSlot reached =
        code.injection.requests reached ++ reports (code.injection.run reached).1 := by
    unfold fireRequests
    rw [snippet]
    rfl
  have caught (type : ValueType) (reached : MethodRewrite) :
      layer.fireWithRequests type reached = captureRequests type reached ++
        (code.injection.requests (capture type reached).2 ++
          reports (code.injection.run (capture type reached).2).1) := by
    rw [fireWithRequests, fired]
  -- What comes ahead of the snippet brings the rewrite to where it fires; what fails comes behind.
  match deed with
  | .fire none =>
    cases fires
    exact ⟨[], _, fired none rewrite, rfl⟩
  | .fire (some type) =>
    cases fires
    exact ⟨captureRequests type rewrite, _, caught type rewrite,
      foldl_captureRequests rewrite type⟩
  | .openRange => cases fires
  | .closeRange =>
    simp only [firing?] at fires
    split at fires
    · rename_i prologue start watch
      obtain ⟨closed, stands, rfl⟩ := Option.map_eq_some_iff.1 fires
      obtain ⟨ahead, behind, requests, reached⟩ := layer.closeRangeRequests_firing stands
      refine ⟨ahead ++ captureRequests ValueType.throwable closed,
        reports (code.injection.run (capture ValueType.throwable closed).2).1 ++ behind, ?_, ?_⟩
      · simp only [deedRequests, watch]
        rw [requests, caught]
        simp only [List.append_assoc]
      · rw [List.foldl_append, reached, foldl_captureRequests]
    · cases fires

end Layer

namespace Snippet

open MethodRewrite

/-- **Wherever the code of a probe runs that is a snippet, the snippet is emitted.** -/
theorem Emission.of_firing {layers : List Layer} {events : List MethodEvent}
    {start reached : MethodRewrite} {before behind : List Happening} {index : Nat} {deed : Deed}
    {layer : Layer} {code : Snippet}
    (split : Lookout.history (layers.map Layer.lookout) events =
      before ++ .does index deed :: behind)
    (doer : (before.foldl Happening.happen (layers, start)).1[index]? = some layer)
    (snippet : layer.probe.code = probeCode code)
    (fires : layer.firing? (before.foldl Happening.happen (layers, start)).2 deed = some reached)
    (fine : (code.injection.run reached).2.fault = none) :
    ∃ emission : Emission code start (Layer.record layers events start),
      emission.reached = reached := by
  obtain ⟨ahead, rest, requests, arrived⟩ := Layer.deedRequests_firing snippet fires
  let state := before.foldl Happening.happen (layers, start)
  let early := Happening.record before (layers, start) ++ ahead.map .request
  let late := rest.map Action.request ++
    Happening.record behind (Happening.happen state (.does index deed))
  have there : early.foldl act start = reached := by
    rw [List.foldl_append, Happening.foldl_record before (layers, start), List.foldl_map]
    exact arrived
  have deeds : (Happening.does index deed).actions state =
      (layer.deedRequests state.2 deed).map .request := by
    simp only [Happening.actions, state, doer]
  have whole : Layer.record layers events start =
      early ++ ((code.injection.requests (early.foldl act start)).map .request ++ late) := by
    rw [there, Layer.record, split, Happening.record_append, Happening.record, deeds, requests]
    simp only [early, late, List.map_append, List.append_assoc]
    rfl
  exact ⟨⟨early, late, whole, there ▸ fine⟩, there⟩

end Snippet

/-! ## A snippet that is emitted twice -/

namespace Sample

/-- `static void m() { }` -/
def returning : Member :=
  ⟨8, 0, 0, [⟨1, Attribute.code, [0, 1, 0, 0, 0, 0, 0, 1, 0xB1, 0, 0, 0, 0]⟩]⟩

/-- A jump to the end of the snippet. -/
def skipping : Snippet :=
  [.insn (.simple Opcode.iconst0), .insn (.jump Opcode.ifeq ⟨900⟩), .label ⟨900⟩]

/-- A probe with the snippet, at the entry of the method. -/
def atEntry : Layer :=
  .start ⟨"A", "", none, ⟨"", "", "", "", 0, .entry, .before⟩, Snippet.probeCode skipping⟩
    ⟨0, 8, "m", "()V"⟩

def untouched : MethodRewrite :=
  .start (.start "A" 52 (ConstantPool.ofEntries #[]) Hierarchy.flat Options.standard)
    ⟨0, 8, "m", "()V"⟩

def returns : List MethodEvent := (returning.tell #[] "A" "m" "()V").events

end Sample

/-- Two probes emit the snippet, each under a label of its own. -/
theorem Snippet.emission_faithful_twice :
    (∀ code, Sample.returning.code? #[] = .ok (some code) → code.code.length ≤ 0xFFFF) ∧
    Sample.skipping.PlacesOnce ∧
    ∃ one other : Emission Sample.skipping Sample.untouched
      (Layer.record [Sample.atEntry, Sample.atEntry] Sample.returns Sample.untouched),
      one.name ⟨900⟩ = ⟨0x10000⟩ ∧ other.name ⟨900⟩ = ⟨0x10001⟩ ∧
      one.Faithful Sample.returns ∧ other.Faithful Sample.returns := by
  have small : ∀ code, Sample.returning.code? #[] = .ok (some code) →
      code.code.length ≤ 0xFFFF := by
    intro code known
    have length : ((Sample.returning.code? #[]).toOption.all fun code? =>
        code?.all fun code => decide (code.code.length ≤ 0xFFFF)) = true := by decide +kernel
    rw [known] at length
    exact of_decide_eq_true length
  have once : Sample.skipping.PlacesOnce := by
    intro label
    simp only [Sample.skipping, List.count_cons]
    grind
  let told := Lookout.history ([Sample.atEntry, Sample.atEntry].map Layer.lookout) Sample.returns
  let state (number : Nat) := (told.take number).foldl Happening.happen
    ([Sample.atEntry, Sample.atEntry], Sample.untouched)
  have firing : told = told.take 3 ++ .does 1 (.fire none) :: told.drop 4 := by decide +kernel
  have firing' : told = told.take 4 ++ .does 0 (.fire none) :: told.drop 5 := by decide +kernel
  have fine : (Sample.skipping.injection.run (state 3).2).2.fault.isNone = true ∧
      (Sample.skipping.injection.run (state 4).2).2.fault.isNone = true := by decide +kernel
  obtain ⟨one, reached⟩ := Emission.of_firing firing rfl rfl rfl
    (Option.isNone_iff_eq_none.1 fine.1)
  obtain ⟨other, reached'⟩ := Emission.of_firing firing' rfl rfl rfl
    (Option.isNone_iff_eq_none.1 fine.2)
  refine ⟨small, once, one, other, ?_, ?_,
    emission_faithful small "A" "m" "()V" _ _ _ once one,
    emission_faithful small "A" "m" "()V" _ _ _ once other⟩
  · rw [Emission.name, reached]
    decide +kernel
  · rw [Emission.name, reached']
    decide +kernel

end ClassWeave
