/-
# ClassWeave.Proofs.FailingMethods -- a class with a failing method is left alone

The methods of a class are rewritten one after the other.  `Reached` is a method with code
that is told to its end through the layers of its probes, nothing having failed before.
If anything goes wrong with it, however that came about and whoever took notice, then
its first fault becomes the failure of the class, no method after it is rewritten, and
the class comes out as it went in; and if nothing goes wrong with any method, then those
that something was injected into have new code.

What goes wrong with a method is looked up in the record of its run (`weaveRecord`).
-/
import ClassWeave.Proofs.FirstFaults
import ClassWeave.Proofs.LayerRecord
import ClassWeave.Proofs.MethodPayloads

set_option autoImplicit false

namespace ClassWeave

open MethodRewrite (act start Leaves)

/-- All that is done to a method in the layers of the probes that apply to it. -/
def weaveRecord (probes : List Probe) (method : MethodContext) (told : List MethodEvent)
    (target : RewriteTarget) : List Action :=
  let applying := probes.filter fun probe => probe.appliesTo method.name method.descriptor
  Layer.record (applying.map fun probe => Layer.start probe method) told (start target method)

/-- The class after a method has been told to its end. -/
def weaveOutcome (probes : List Probe) (method : MethodContext) (told : List MethodEvent)
    (target : RewriteTarget) : RewriteTarget :=
  (((weaveRecord probes method told target).foldl act (start target method)).act
    (.own .finish)).target

/-- A method with code whose turn comes in a class when it has come to `before`, without a failure,
that some probes apply to, and that is told to its end. -/
structure Reached (probes : List Probe) (entries : Entries) (className : String)
    (options : Options) (methods : List (Member × Nat)) (target before : RewriteTarget)
    (member : Member) (method : MethodContext) (told : List MethodEvent) : Prop where
  turn : ∃ early late, methods = early ++ (member, method.index) :: late ∧
    weaveMethods probes entries className options early target = (before, none)
  unfailed : before.failure = none
  access : method.access = member.access
  named : entries.utf8 member.name = .ok method.name
  described : entries.utf8 member.descriptor = .ok method.descriptor
  touchable : touchable options method.access method.name = true
  applies : ∃ probe ∈ probes, probe.appliesTo method.name method.descriptor = true
  tells : ∃ code, member.code? entries = .ok (some code) ∧
    (code.tell entries className method.name method.descriptor
      (AccessFlag.static.isIn member.access)).Told told

variable {probes : List Probe} {entries : Entries} {className : String} {options : Options}

/-! ## One method after the other -/

theorem weaveMethods_append (late : List (Member × Nat)) :
    ∀ (early : List (Member × Nat)) (target : RewriteTarget),
    weaveMethods probes entries className options (early ++ late) target =
      match weaveMethods probes entries className options early target with
      | (before, none) => weaveMethods probes entries className options late before
      | (before, some cause) => (before, some cause)
  | [], _ => rfl
  | (member, index) :: early, target => by
    have others := weaveMethods_append late early
    rw [List.cons_append, weaveMethods, weaveMethods]
    simp only [others]
    split
    · rfl
    · split
      · rfl
      · split <;> rfl

/-- After a failure the class stays as it is. -/
theorem weaveMethods_failed {target : RewriteTarget} (failed : target.failure.isSome = true) :
    ∀ methods : List (Member × Nat),
    (weaveMethods probes entries className options methods target).1 = target
  | [] => rfl
  | (member, index) :: rest => by
    have others := weaveMethods_failed failed rest
    rw [weaveMethods]
    simp only [failed, Bool.or_true, Bool.true_or, if_true]
    split
    · rfl
    · exact others

/-! ## One method -/

/-- A method that nothing goes wrong with leaves the failure of the class as it is. -/
theorem MethodRewrite.Leaves.unfailed {target after : RewriteTarget} {method : MethodContext}
    {marked : Bool} (leaves : Leaves target method none marked after) :
    after.failure = target.failure := by
  cases leaves with
  | written _ kept | untouched _ kept => exact kept

theorem weaveMethod_told (probes : List Probe) (method : MethodContext) (target : RewriteTarget)
    {member : Member} {told : List MethodEvent} {code : CodeAttribute}
    (known : member.code? entries = .ok (some code))
    (tells : (code.tell entries className method.name method.descriptor
      (AccessFlag.static.isIn member.access)).Told told) :
    weaveMethod (probes.filter fun probe => probe.appliesTo method.name method.descriptor) entries
      className member method target = (weaveOutcome probes method told target, none) := by
  have whole := Member.tell_of_code known tells
  have finish : MethodEvent.finish.Idle := trivial
  unfold weaveMethod weaveOutcome weaveRecord
  rw [whole]
  simp only [Layer.runAll_idle finish, Layer.runAll_record]
  rfl

/-- A method without code leaves the class alone. -/
theorem weaveMethod_bodiless (probes : List Probe) (className : String) (method : MethodContext)
    (target : RewriteTarget) {member : Member} (none_ : member.code? entries = .ok none) :
    weaveMethod probes entries className member method target =
      ((start target method).target, none) := by
  have finish : MethodEvent.finish.Idle := trivial
  unfold weaveMethod Member.tell
  rw [none_]
  have ended := Layer.runAll_idle finish (probes.map fun probe => Layer.start probe method) []
    (start target method)
  exact Prod.ext (congrArg MethodRewrite.target ended) rfl

/-- A method with code is told its sizes. -/
theorem CodeAttribute.tell_sizes {code : CodeAttribute} {methodName descriptor : String}
    {isStatic : Bool} {told : List MethodEvent}
    (tells : (code.tell entries className methodName descriptor isStatic).Told told) :
    .sizes code.maxStack code.maxLocals ∈ told := by
  unfold tell at tells
  obtain ⟨sizes, _, first, _, rfl⟩ := Telling.told_followedBy.1 tells
  obtain rfl := Telling.told_ofList.1 first
  exact List.mem_append_left _ List.mem_cons_self

theorem weaveRecord_tellsCode (probes : List Probe) (method : MethodContext)
    (target : RewriteTarget) {told : List MethodEvent} {maxStack maxLocals : UInt16}
    (sizes : .sizes maxStack maxLocals ∈ told) :
    (weaveRecord probes method told target).any Action.tellsCode = true := by
  unfold weaveRecord
  rw [← Layer.own_record _ told (start target method)] at sizes
  obtain ⟨action, among, own⟩ := List.mem_filterMap.1 sizes
  refine List.any_eq_true.2 ⟨action, among, ?_⟩
  cases action with
  | own event =>
    cases own
    rfl
  | request => cases own

namespace Reached

variable {methods : List (Member × Nat)} {target before : RewriteTarget} {member : Member}
  {method : MethodContext} {told : List MethodEvent}

theorem woven (reached : Reached probes entries className options methods target before member
      method told) (late : List (Member × Nat)) :
    weaveMethods probes entries className options ((member, method.index) :: late) before =
      weaveMethods probes entries className options late
        (weaveOutcome probes method told before) := by
  obtain ⟨code, known, tells⟩ := reached.tells
  obtain ⟨probe, some_, applies⟩ := reached.applies
  have probed : (probes.filter fun probe =>
      probe.appliesTo method.name method.descriptor).isEmpty = false := by
    rw [List.isEmpty_eq_false_iff_exists_mem]
    exact ⟨probe, List.mem_filter.2 ⟨some_, applies⟩⟩
  have outcome := weaveMethod_told probes method before known tells
  rw [weaveMethods]
  simp only [reached.named, reached.described, bind, Except.bind, pure, Except.pure,
    ← reached.access, reached.touchable, reached.unfailed, probed, outcome]
  rfl

/-- **The end of a reached method finds out what went wrong first.** -/
theorem leaves (reached : Reached probes entries className options methods target before member
      method told)
    (goesOn : ∀ action ∈ weaveRecord probes method told before, action.ends = false) :
    Leaves before method ((start before method).failing (weaveRecord probes method told before))
      ((weaveRecord probes method told before).any Action.marks)
      (weaveOutcome probes method told before) := by
  obtain ⟨code, _, tells⟩ := reached.tells
  exact MethodRewrite.finish_leaves before method
    (weaveRecord_tellsCode probes method before (CodeAttribute.tell_sizes tells)) goesOn

/-- The class comes to the methods after a reached one with what that has left. -/
theorem onwards (reached : Reached probes entries className options methods target before member
      method told) :
    ∃ early late, methods = early ++ (member, method.index) :: late ∧
      weaveMethods probes entries className options early target = (before, none) ∧
      weaveMethods probes entries className options methods target =
        weaveMethods probes entries className options late
          (weaveOutcome probes method told before) := by
  obtain ⟨early, late, rfl, turn⟩ := reached.turn
  refine ⟨early, late, rfl, turn, ?_⟩
  rw [weaveMethods_append, turn]
  exact reached.woven late

end Reached

/-! ## A class nothing fails in -/

/-- The next method of a class is passed by, or has no code, or is reached. -/
theorem weaveMethods_next {member : Member} {index : Nat} {target after : RewriteTarget}
    (unfailed : target.failure = none)
    (done : weaveMethods probes entries className options [(member, index)] target =
      (after, none)) (rest : List (Member × Nat)) :
    after.failure = none ∨ ∃ method told,
      Reached probes entries className options ((member, index) :: rest) target target member method
        told ∧ after = weaveOutcome probes method told target := by
  rw [weaveMethods] at done
  simp only at done
  split at done
  · cases done
  · rename_i name descriptor known
    obtain ⟨_, named, known⟩ := Outcome.bind_eq_ok.1 known
    obtain ⟨_, described, same⟩ := Outcome.bind_eq_ok.1 known
    cases same
    split at done
    · cases done
      exact .inl unfailed
    · rename_i taken
      obtain ⟨open_, applies⟩ := of_not_passed taken
      split at done
      · cases done
      · rename_i next woven
        cases done
        -- The run got past this method, so what is told of it was told without a fault.
        let method : MethodContext := ⟨index, member.access, name, descriptor⟩
        have whole : (member.tell entries className name descriptor).fault = none :=
          congrArg Prod.snd woven
        obtain ⟨body, -, ⟨bodiless, -⟩ | ⟨code, coded, tells⟩⟩ :=
          Member.tell_told (Telling.told_iff.2 ⟨rfl, whole⟩)
        · rw [weaveMethod_bodiless _ className method target bodiless] at woven
          cases woven
          exact .inl unfailed
        · rw [weaveMethod_told probes method target coded tells] at woven
          cases woven
          exact .inr ⟨method, body, ⟨⟨[], rest, rfl, rfl⟩, unfailed, rfl, named, described,
            open_, applies, code, coded, tells⟩, rfl⟩

/-- Who is reached later is reached. -/
theorem Reached.later {first : Member × Nat} {methods : List (Member × Nat)}
    {target next before : RewriteTarget} {member : Member} {method : MethodContext}
    {told : List MethodEvent}
    (reached : Reached probes entries className options methods next before member method told)
    (done : weaveMethods probes entries className options [first] target = (next, none)) :
    Reached probes entries className options (first :: methods) target before member method
      told := by
  obtain ⟨early, late, split, turn⟩ := reached.turn
  refine { reached with turn := ⟨first :: early, late, congrArg (first :: ·) split, ?_⟩ }
  have both : weaveMethods probes entries className options (first :: early) target = _ :=
    weaveMethods_append early [first] target
  rw [both, done]
  exact turn

/-- **If nothing goes wrong with any method that is reached, the class has no failure.** -/
theorem weaveMethods_unfailed : ∀ {methods : List (Member × Nat)} {target after : RewriteTarget},
    target.failure = none →
    weaveMethods probes entries className options methods target = (after, none) →
    (∀ before member method told,
      Reached probes entries className options methods target before member method told →
      (∀ action ∈ weaveRecord probes method told before, action.ends = false) ∧
        (start before method).failing (weaveRecord probes method told before) = none) →
    after.failure = none
  | [], target, after, unfailed, done, _ => by
    cases done
    exact unfailed
  | (member, index) :: rest, target, after, unfailed, done, fine => by
    have both : weaveMethods probes entries className options ([(member, index)] ++ rest) target =
        _ := weaveMethods_append rest [(member, index)] target
    rw [List.singleton_append] at both
    rw [done] at both
    rcases one : weaveMethods probes entries className options [(member, index)] target with
      ⟨next, _ | cause⟩
    · rw [one] at both
      refine weaveMethods_unfailed ?_ both.symm fun before other method told reached =>
        fine before other method told (reached.later one)
      rcases weaveMethods_next unfailed one rest with passed | ⟨method, told, reached, rfl⟩
      · exact passed
      · obtain ⟨goesOn, wrong⟩ := fine _ _ _ _ reached
        have leaves := reached.leaves goesOn
        rw [wrong] at leaves
        exact leaves.unfailed.trans unfailed
    · rw [one] at both
      cases both

/-! ## Whose code is new -/

/-- Methods that are not seen to come to no payload. -/
theorem weaveMethods_payload {methods : List (Member × Nat)} (target : RewriteTarget) {index : Nat}
    (away : ∀ member, (member, index) ∉ methods) :
    (weaveMethods probes entries className options methods target).1.payload? index =
      target.payload? index := by
  obtain ⟨own, all, each⟩ :=
    (weaveMethods_visits probes entries className options methods target).gathers.rewritten
  have none_ : own.lookup index = none := by
    rw [List.lookup_eq_none_iff]
    intro payload among
    obtain ⟨member, known, _⟩ := each payload among
    refine bne_iff_ne.2 ?_
    rintro rfl
    exact away member known
  unfold RewriteTarget.payload?
  rw [all, List.lookup_append, none_, Option.none_or]

namespace Reached

variable {file : ClassFile} {target before : RewriteTarget} {member : Member}
  {method : MethodContext} {told : List MethodEvent}

/-- The payload of a method in the end is the one it has left. -/
theorem payload (reached : Reached probes entries className options file.methods.zipIdx target
      before member method told) (none_ : target.rewritten = []) :
    before.payload? method.index = none ∧
      (weaveMethods probes entries className options file.methods.zipIdx target).1.payload?
          method.index =
        (weaveOutcome probes method told before).payload? method.index := by
  obtain ⟨early, late, split, turn, onwards⟩ := reached.onwards
  have distinct : (file.methods.zipIdx.map Prod.snd).Nodup := by
    rw [List.zipIdx_map_snd]
    exact List.nodup_range'
  rw [split, List.map_append, List.map_cons, List.perm_middle.nodup_iff, List.nodup_cons,
    List.mem_append, not_or] at distinct
  have away {methods : List (Member × Nat)} (distinct : method.index ∉ methods.map Prod.snd)
      (other : Member) : (other, method.index) ∉ methods := fun among =>
    distinct (List.mem_map.2 ⟨_, among, rfl⟩)
  have none_before : before.payload? method.index = none := by
    have same := congrArg (fun outcome => outcome.1.payload? method.index) turn
    simp only [weaveMethods_payload target (away distinct.1.1)] at same
    rw [← same]
    unfold RewriteTarget.payload?
    rw [none_]
    rfl
  refine ⟨none_before, ?_⟩
  rw [onwards]
  exact weaveMethods_payload _ (away distinct.1.2)

/-- A method that fails fails the class, and has no new code. -/
theorem fails (reached : Reached probes entries className options file.methods.zipIdx target
      before member method told) (none_ : target.rewritten = [])
    (goesOn : ∀ action ∈ weaveRecord probes method told before, action.ends = false)
    {cause : InstrumentError}
    (wrong : (start before method).failing (weaveRecord probes method told before) = some cause) :
    (weaveMethods probes entries className options file.methods.zipIdx target).1.failure =
        some (method.name ++ method.descriptor, cause) ∧
      (weaveMethods probes entries className options file.methods.zipIdx target).1.payload?
        method.index = none := by
  obtain ⟨away, payload⟩ := reached.payload none_
  obtain ⟨early, late, _, _, onwards⟩ := reached.onwards
  have leaves := reached.leaves goesOn
  rw [wrong] at leaves
  cases leaves with
  | failed rewritten failure =>
    rw [reached.unfailed] at failure
    have stays : (weaveMethods probes entries className options late
        (weaveOutcome probes method told before)).1 = _ :=
      weaveMethods_failed (Option.isSome_of_eq_some failure) late
    rw [payload, onwards, stays, failure]
    refine ⟨rfl, ?_⟩
    unfold RewriteTarget.payload? at away ⊢
    rw [rewritten, away]

/-- If nothing goes wrong with a method, it has new code if anything was injected into it. -/
theorem writes (reached : Reached probes entries className options file.methods.zipIdx target
      before member method told) (none_ : target.rewritten = [])
    (goesOn : ∀ action ∈ weaveRecord probes method told before, action.ends = false)
    (fine : (start before method).failing (weaveRecord probes method told before) = none) :
    ((weaveMethods probes entries className options file.methods.zipIdx target).1.payload?
        method.index).isSome =
      (weaveRecord probes method told before).any Action.marks := by
  obtain ⟨away, payload⟩ := reached.payload none_
  have leaves := reached.leaves goesOn
  rw [fine] at leaves
  rw [payload]
  unfold RewriteTarget.payload? at away ⊢
  generalize (weaveRecord probes method told before).any Action.marks = marked at leaves ⊢
  cases leaves with
  | written rewritten =>
    rw [rewritten, List.lookup_cons_self]
    rfl
  | untouched rewritten =>
    rw [rewritten, away]
    rfl

end Reached

/-! ## What becomes of the class -/

/-- A class whose methods come to be rewritten, from `target` on: it has a name, some probes reach
it, and all before its methods can be told. -/
structure Transformer.Opens (transformer : Transformer) (sources : Sources) (bytes : Bytes)
    (cache : ClassCache) (file : ClassFile) (className : String) (probes : List Probe)
    (target : RewriteTarget) : Prop where
  read : ClassFile.read bytes = .ok file
  named : file.name = .ok className
  found : (matchingProbes transformer.probes sources file className cache).1 = .ok probes
  reached : probes ≠ []
  preface : file.tellPreface.fault = none
  target : target =
    RewriteTarget.start className file.major (ConstantPool.ofEntries file.entries)
      (sources.hierarchy (matchingProbes transformer.probes sources file className cache).2)
      transformer.options

/-- Reading breaks off, or the class comes to what all its methods have made of it. -/
theorem weave_outcome {hierarchy : Hierarchy} {file : ClassFile}
    (preface : file.tellPreface.fault = none) :
    (weave probes options hierarchy file className).1 =
      match weaveMethods probes file.entries className options file.methods.zipIdx
        (RewriteTarget.start className file.major (ConstantPool.ofEntries file.entries) hierarchy
          options) with
      | (after, none) => after.result file className
      | (_, some unread) => .error (.read unread) := by
  unfold weave
  rw [preface]
  simp only
  rcases weaveMethods probes file.entries className options file.methods.zipIdx
    (RewriteTarget.start className file.major (ConstantPool.ofEntries file.entries) hierarchy
      options) with ⟨after, _ | unread⟩ <;> rfl

section

variable {transformer : Transformer} {sources : Sources} {bytes : Bytes} {cache : ClassCache}
  {file : ClassFile} {target : RewriteTarget}

theorem Transformer.Opens.transform?
    (opens : transformer.Opens sources bytes cache file className probes target) :
    (transformer.transform? sources bytes cache).1 =
      match weaveMethods probes file.entries className transformer.options file.methods.zipIdx
        target with
      | (after, none) => after.result file className
      | (_, some unread) => .error (.read unread) := by
  obtain ⟨read, named, found, reached, preface, rfl⟩ := opens
  rw [← weave_outcome preface]
  rcases known : matchingProbes transformer.probes sources file className cache with ⟨_, cache'⟩
  rw [known] at found
  cases found
  unfold Transformer.transform?
  rw [read]
  simp only [named, bind, StateT.bind, known]
  cases probes with
  | nil => exact absurd rfl reached
  | cons probe probes => rfl

/-- The outcome of a class with a failure is an error: that failure, or what cannot be read of a
later method. -/
theorem Transformer.Opens.fails
    (opens : transformer.Opens sources bytes cache file className probes target) {name : String}
    {cause : InstrumentError} {outcome : RewriteTarget × Option ReadError}
    (done : weaveMethods probes file.entries className transformer.options file.methods.zipIdx
      target = outcome) (failure : outcome.1.failure = some (name, cause)) :
    (transformer.transform? sources bytes cache).1 =
      .error (outcome.2.elim (.instrument className name cause) .read) := by
  rw [opens.transform?, done]
  obtain ⟨after, _ | unread⟩ := outcome
  · show after.result file className = _
    unfold RewriteTarget.result
    rw [failure]
    rfl
  · rfl

theorem Transformer.transform_of_error {fault : WeaveError}
    (failed : (transformer.transform? sources bytes cache).1 = .error fault) :
    (transformer.transform sources bytes cache).1 = bytes := by
  unfold transform
  rcases run : transformer.transform? sources bytes cache with ⟨outcome, cache'⟩
  rw [run] at failed
  cases failed
  simp only [bind, StateT.bind, run]
  rfl

end

/-- **The first fault decides.**  Whatever is done to a method with code, event by event and request
by request, its end leaves the class with its first fault, or with new code exactly if
something was injected.  And whatever the probes of a class do: the first fault of the first
method that anything goes wrong with is the failure of the class, which then keeps its bytes; and
if nothing goes wrong, a method has new code exactly if something was injected into it. -/
theorem first_fault_decides :
    (∀ (target : RewriteTarget) (method : MethodContext) (actions : List Action),
      actions.any Action.tellsCode = true → (∀ action ∈ actions, action.ends = false) →
      Leaves target method ((start target method).failing actions) (actions.any Action.marks)
        (((actions.foldl act (start target method)).act (.own .finish)).target)) ∧
    ∀ (transformer : Transformer) (sources : Sources) (bytes : Bytes) (cache : ClassCache)
      (file : ClassFile) (className : String) (probes : List Probe) (target : RewriteTarget),
      transformer.Opens sources bytes cache file className probes target →
      let outcome := weaveMethods probes file.entries className transformer.options
        file.methods.zipIdx target
      let reached := Reached probes file.entries className transformer.options file.methods.zipIdx
        target
      (∀ before member method told cause, reached before member method told →
        (∀ action ∈ weaveRecord probes method told before, action.ends = false) →
        (start before method).failing (weaveRecord probes method told before) = some cause →
        let name := method.name ++ method.descriptor
        outcome.1.failure = some (name, cause) ∧ outcome.1.payload? method.index = none ∧
          (transformer.transform? sources bytes cache).1 =
            .error (outcome.2.elim (.instrument className name cause) .read) ∧
          (transformer.transform sources bytes cache).1 = bytes) ∧
      (outcome.2 = none →
        (∀ before member method told, reached before member method told →
          (∀ action ∈ weaveRecord probes method told before, action.ends = false) ∧
            (start before method).failing (weaveRecord probes method told before) = none) →
        outcome.1.failure = none ∧
          ∀ before member method told, reached before member method told →
            (outcome.1.payload? method.index).isSome =
              (weaveRecord probes method told before).any Action.marks) := by
  refine ⟨fun target method actions => MethodRewrite.finish_leaves target method, ?_⟩
  intro transformer sources bytes cache file className probes target opens outcome reached
  have none_ : target.rewritten = [] := by
    rw [opens.target]
    rfl
  have unfailed : target.failure = none := by
    rw [opens.target]
    rfl
  constructor
  · intro before member method told cause turn goesOn wrong name
    obtain ⟨failure, payload⟩ := turn.fails none_ goesOn wrong
    have error := opens.fails rfl failure
    exact ⟨failure, payload, error, Transformer.transform_of_error error⟩
  · intro read fine
    refine ⟨weaveMethods_unfailed unfailed (Prod.ext rfl read) fine, ?_⟩
    intro before member method told turn
    obtain ⟨goesOn, right⟩ := fine before member method told turn
    exact turn.writes none_ goesOn right

/-- Takes a value from the empty stack that the methods of class `A` begin with. -/
def Sample.popAtEntry : Transformer :=
  ⟨[⟨"A", "", none, ⟨"", "", "", "", 0, .entry, .before⟩,
    Snippet.probeCode [.insn (.simple Opcode.pop)]⟩], Options.standard⟩

def Sample.plainFile : ClassFile := (ClassFile.read Sample.plain).toOption.get (by decide +kernel)

def Sample.plainTarget : RewriteTarget :=
  RewriteTarget.start "A" 49 (ConstantPool.ofEntries plainFile.entries)
    (Sources.hierarchy ⟨none, []⟩ ClassCache.empty) Options.standard

theorem Sample.popAtEntry_opens : popAtEntry.Opens ⟨none, []⟩ plain ClassCache.empty plainFile "A"
    popAtEntry.probes plainTarget := by
  have found : matchingProbes popAtEntry.probes ⟨none, []⟩ plainFile "A" ClassCache.empty =
      (.ok popAtEntry.probes, ClassCache.empty) := matchingProbes_A _ _ _
  refine ⟨by decide +kernel, by decide +kernel, by rw [found], List.cons_ne_nil _ _,
    by decide +kernel, ?_⟩
  rw [found]
  rfl

theorem first_fault_decides_pop :
    (Sample.popAtEntry.transform? ⟨none, []⟩ Sample.plain ClassCache.empty).1 =
        .error (.instrument "A" "m()V" (.stackUnderflow Opcode.pop)) ∧
      (Sample.popAtEntry.transform ⟨none, []⟩ Sample.plain ClassCache.empty).1 = Sample.plain := by
  let method : MethodContext := ⟨0, 8, "m", "()V"⟩
  let code : CodeAttribute := ⟨0, 0, [0xB1], [], []⟩
  let told : List MethodEvent :=
    [.sizes 0 0, .label ⟨0⟩, .insn (.simple Opcode.voidReturn), .label ⟨1⟩, .maxs 0 0]
  have tells : (code.tell Sample.plainFile.entries "A" "m" "()V" true).Told told :=
    Telling.told_iff.2 ⟨by decide +kernel, by decide +kernel⟩
  have reached : Reached Sample.popAtEntry.probes Sample.plainFile.entries "A" Options.standard
      Sample.plainFile.methods.zipIdx Sample.plainTarget Sample.plainTarget
      (Sample.plainFile.methods.head (by decide +kernel)) method told :=
    { turn := ⟨[], [], by decide +kernel, rfl⟩
      unfailed := rfl
      access := by decide +kernel
      named := by decide +kernel
      described := by decide +kernel
      touchable := by decide +kernel
      applies := ⟨_, List.mem_cons_self, by decide +kernel⟩
      tells := ⟨code, by decide +kernel, tells⟩ }
  have wrong : (start Sample.plainTarget method).failing
      (weaveRecord Sample.popAtEntry.probes method told Sample.plainTarget) =
        some (.stackUnderflow Opcode.pop) := by
    decide +kernel
  obtain ⟨_, _, error, same⟩ := (first_fault_decides.2 Sample.popAtEntry ⟨none, []⟩ Sample.plain
    ClassCache.empty Sample.plainFile "A" _ _ Sample.popAtEntry_opens).1 _ _ method told _ reached
    (by decide +kernel) wrong
  exact ⟨error.trans (by decide +kernel), same⟩

end ClassWeave
