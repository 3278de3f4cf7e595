/-
# ClassWeave.Proofs.MethodPayloads -- where a new code payload comes from

Nothing of a method reaches its class before the end of the method, and there is one payload
at most at the end: that of the body which the events of the method have left
(`Member.Rewrites`).  `weaveMethods_rewrites` finds the method, its code and its events
for every payload of a class, whatever harmless code the probes inject; what is said of
one rewritten method is said of all of them by it.
-/
import ClassWeave.Proofs.MethodTelling
import ClassWeave.Proofs.Weaving

set_option autoImplicit false

namespace ClassWeave

/-! ## Events that go through the layers untouched -/

/-- Events between the instructions, and the end. -/
def MethodEvent.Idle : MethodEvent → Prop
  | .label _ | .line _ _ | .frame _ _ | .finish => True
  | _ => False

namespace Layer

variable {event : MethodEvent} (idle : event.Idle)

include idle

theorem before_idle (layer : Layer) (rewrite : MethodRewrite) :
    (layer.before event rewrite).2 = rewrite := by
  unfold before
  split <;> first | rfl | exact idle.elim

theorem after_idle (layer : Layer) (rewrite : MethodRewrite) :
    (layer.after event rewrite).2 = rewrite := by
  unfold after
  split <;> first | rfl | exact idle.elim

/-- Layers may remember such an event, and do nothing about it. -/
theorem stepAll_idle : ∀ (layers : List Layer) (rewrite : MethodRewrite),
    (stepAll layers event rewrite).2 = rewrite.step event
  | [], _ => rfl
  | layer :: rest, rewrite => by
    simp only [stepAll, after_idle idle, before_idle idle]
    exact stepAll_idle rest rewrite

omit idle in
theorem runAll_append (layers : List Layer) (early late : List MethodEvent)
    (rewrite : MethodRewrite) : runAll layers (early ++ late) rewrite =
      runAll (runAll layers early rewrite).1 late (runAll layers early rewrite).2 := by
  unfold runAll
  rw [List.foldl_append]

theorem runAll_idle (layers : List Layer) (events : List MethodEvent) (rewrite : MethodRewrite) :
    (runAll layers (events ++ [event]) rewrite).2 =
      (runAll layers events rewrite).2.step event := by
  rw [runAll_append]
  exact stepAll_idle idle _ _

end Layer

/-! ## The end of a method -/

/-- A method that ends leaves no payload, or that of the body it has if nothing went wrong. -/
theorem MethodRewrite.close_rewritten (rewrite : MethodRewrite) :
    rewrite.close.target.rewritten = rewrite.target.rewritten ∨
      ∃ payload, rewrite.fault = none ∧
        rewrite.serialize rewrite.target.pool = (.ok payload, rewrite.close.target.pool) ∧
        rewrite.close.target.rewritten =
          (rewrite.method.index, payload) :: rewrite.target.rewritten := by
  unfold close
  split
  · exact .inl rfl
  · split
    · exact .inl rfl
    · simp only
      split
      · exact .inl rfl
      · unfold settle
        simp only
        split
        · exact .inl rfl
        · rename_i fine
          split
          · rename_i payload pool written
            exact .inr ⟨payload, fine, written, rfl⟩
          · exact .inl rfl

/-- Without the end of a method, its class is left alone. -/
theorem Layer.runAll_quiet {layers : List Layer} (fine : ∀ layer ∈ layers, layer.probe.Harmless)
    {events : List MethodEvent} (goesOn : ∀ event ∈ events, event ≠ .finish)
    {start : MethodRewrite} (taken : start.ledger.phase = .open) :
    (runAll layers events start).2.outline.target = start.outline.target := by
  obtain ⟨actions, run⟩ := runAll_weaves permits_harmless events layers start
    fun layer among => (fine layer among).obeys
  obtain ⟨_, _, strand, _⟩ := run.strand (fun _ _ => trivial)
    (fun event among => ⟨goesOn event among, fun _ _ _ _ _ => trivial⟩) taken
  exact strand.gains.target

/-! ## Payloads of methods -/

variable {probes : List Probe} {entries : Entries}

/-- Each layer of a method is one of the probes of the class at work. -/
theorem Layer.probe_mem_of_start {chosen : Probe → Bool} {method : MethodContext} {layer : Layer}
    (among : layer ∈ (probes.filter chosen).map fun probe => Layer.start probe method) :
    layer.probe ∈ probes := by
  obtain ⟨probe, applies, rfl⟩ := List.mem_map.1 among
  exact (List.mem_filter.1 applies).1

/-- The payload is that of the body which the code of the method has left when it has gone through
the layers of the probes. -/
def Member.Rewrites (probes : List Probe) (entries : Entries) (className : String)
    (member : Member) (method : MethodContext) (target : RewriteTarget) (after : ConstantPool)
    (payload : Bytes) : Prop :=
  ∃ code told, member.code? entries = .ok (some code) ∧
    (code.tell entries className method.name method.descriptor
      (AccessFlag.static.isIn member.access)).Told told ∧
    (Layer.runAll (probes.map fun probe => Layer.start probe method) told
      (MethodRewrite.start target method)).2.serialize target.pool = (.ok payload, after)

/-- Nothing has gone wrong with the method when its code has gone through the layers. -/
def Member.Unfailed (probes : List Probe) (entries : Entries) (className : String)
    (member : Member) (method : MethodContext) (target : RewriteTarget) : Prop :=
  ∀ code told, member.code? entries = .ok (some code) →
    (code.tell entries className method.name method.descriptor
      (AccessFlag.static.isIn member.access)).Told told →
    (Layer.runAll (probes.map fun probe => Layer.start probe method) told
      (MethodRewrite.start target method)).2.fault = none

theorem weaveMethod_rewrites (harmless : ∀ probe ∈ probes, probe.Harmless) (className : String)
    (target : RewriteTarget) (member : Member) (method : MethodContext) :
    (weaveMethod probes entries className member method target).1.rewritten = target.rewritten ∨
      ∃ payload, (weaveMethod probes entries className member method target).1.rewritten =
          (method.index, payload) :: target.rewritten ∧
        member.Rewrites probes entries className method target
          (weaveMethod probes entries className member method target).1.pool payload ∧
        member.Unfailed probes entries className method target := by
  let layers := probes.map fun probe => Layer.start probe method
  have fine : ∀ layer ∈ layers, layer.probe.Harmless := by
    intro layer among
    obtain ⟨probe, known, rfl⟩ := List.mem_map.1 among
    exact harmless probe known
  have finish : MethodEvent.finish.Idle := trivial
  -- Up to its end a method leaves pool and payloads alone; only closing it can add one.
  have quiet {events : List MethodEvent} (goesOn : ∀ event ∈ events, event ≠ .finish) :
      (Layer.runAll layers events (MethodRewrite.start target method)).2.target.rewritten =
          target.rewritten ∧
        (Layer.runAll layers events (MethodRewrite.start target method)).2.target.pool =
          target.pool := by
    have open_ : (MethodRewrite.start target method).ledger.phase = .open := rfl
    have same := Layer.runAll_quiet fine goesOn open_
    have rewritten := congrArg RewriteTarget.rewritten same
    have pool := congrArg RewriteTarget.pool same
    exact ⟨rewritten, pool⟩
  rcases member.tell_ends entries className method.name method.descriptor with
    ⟨events, told⟩ | goesOn
  · obtain ⟨body, rfl, ⟨_, rfl⟩ | ⟨code, known, whole⟩⟩ := Member.tell_told told
    · left
      unfold weaveMethod
      rw [told]
      have ended := Layer.runAll_idle finish layers []
        (MethodRewrite.start target method)
      exact congrArg RewriteTarget.rewritten (congrArg MethodRewrite.target ended)
    · have ends : (weaveMethod probes entries className member method target).1 =
          (Layer.runAll layers body (MethodRewrite.start target method)).2.close.target := by
        unfold weaveMethod
        rw [told]
        have ended := Layer.runAll_idle finish layers body
          (MethodRewrite.start target method)
        exact congrArg MethodRewrite.target ended
      have goesOn := code.tell_goesOn entries className method.name method.descriptor
        (AccessFlag.static.isIn member.access)
      rw [whole] at goesOn
      obtain ⟨rewritten, pool⟩ := quiet goesOn
      rw [ends]
      rcases MethodRewrite.close_rewritten
        (Layer.runAll layers body (MethodRewrite.start target method)).2 with
        same | ⟨payload, unfailed, done, same⟩
      · exact .inl (same.trans rewritten)
      · rw [pool] at done
        have index : (Layer.runAll layers body (MethodRewrite.start target method)).2.method =
            method := by
          obtain ⟨_, run⟩ := Layer.runAll_weaves permits_harmless body layers
            (MethodRewrite.start target method) fun layer among => (fine layer among).obeys
          exact run.follows.method
        refine .inr ⟨payload, by rw [same, rewritten, index],
          ⟨code, body, known, whole, done⟩, fun code' body' known' whole' => ?_⟩
        obtain rfl : code = code' := by
          rw [known] at known'
          exact Option.some.inj (Except.ok.inj known')
        obtain rfl : body = body' := congrArg Telling.events (whole.symm.trans whole')
        exact unfailed
  · exact .inl (quiet goesOn).1

/-- A payload with the method it belongs to, which was rewritten when the class had come to `before`,
and left `pool` behind. -/
structure Visits.Rewrites (probes : List Probe) (entries : Entries) (className : String)
    (methods : List (Member × Nat)) (target after before : RewriteTarget) (pool : ConstantPool)
    (member : Member) (name descriptor : String) (index : Nat) (payload : Bytes) : Prop where
  among : (member, index) ∈ methods
  named : entries.utf8 member.name = .ok name
  described : entries.utf8 member.descriptor = .ok descriptor
  major : before.major = target.major
  options : before.options = target.options
  grown : (ConstantPool.ofEntries entries).Grown before.pool
  later : pool.Grown after.pool
  rewrites : member.Rewrites (probes.filter fun probe => probe.appliesTo name descriptor) entries
    className ⟨index, member.access, name, descriptor⟩ before pool payload
  unfailed : member.Unfailed (probes.filter fun probe => probe.appliesTo name descriptor) entries
    className ⟨index, member.access, name, descriptor⟩ before

theorem Visits.rewrites (harmless : ∀ probe ∈ probes, probe.Harmless) {className : String}
    {options : Options}
    {methods : List (Member × Nat)} {target after : RewriteTarget}
    (visits : Visits probes entries className options methods target after) :
    (ConstantPool.ofEntries entries).Grown target.pool → ∀ index payload,
    (index, payload) ∈ after.rewritten → (index, payload) ∈ target.rewritten ∨
      ∃ before pool member name descriptor, Visits.Rewrites probes entries className methods target
        after before pool member name descriptor index payload := by
  induction visits with
  | stop => exact fun _ _ _ among => .inl among
  | pass method _ ih =>
    intro grown index payload among
    rcases ih grown index payload among with old | ⟨before, pool, member, name, descriptor, new⟩
    · exact .inl old
    · exact .inr ⟨before, pool, member, name, descriptor,
        { new with among := List.mem_cons_of_mem _ new.among }⟩
  | @weave member number name descriptor methods target after named described _ _ rest ih =>
    intro grown index payload among
    have fine : ∀ probe ∈ probes.filter fun probe => probe.appliesTo name descriptor,
        probe.Harmless := fun probe known => harmless probe (List.mem_filter.1 known).1
    have sound := grown.sound (ConstantPool.ofEntries_sound entries)
    obtain ⟨woven, follows, same⟩ := weaveMethod_follows
      (probes.filter fun probe => probe.appliesTo name descriptor) entries className member
      ⟨number, member.access, name, descriptor⟩ target
    have pool := follows.pool sound
    have major := follows.major
    have options := follows.options
    rw [← same] at pool major options
    -- What was rewritten at the end was rewritten after this method, and then here or before.
    rcases ih (grown.trans pool) index payload among with
      old | ⟨before, last, other, name', descriptor', new⟩
    · rcases weaveMethod_rewrites fine className target member
        ⟨number, member.access, name, descriptor⟩ with
        kept | ⟨own, more, rewrites, unfailed⟩
      · exact .inl (kept ▸ old)
      · rw [more] at old
        rcases List.mem_cons.1 old with own_ | old
        · cases own_
          have later := rest.gathers.pool (pool.sound sound)
          exact .inr ⟨target, _, member, name, descriptor, List.mem_cons_self, named, described,
            rfl, rfl, grown, later, rewrites, unfailed⟩
        · exact .inl old
    · exact .inr ⟨before, last, other, name', descriptor',
        { new with
          among := List.mem_cons_of_mem _ new.among
          major := new.major.trans major
          options := new.options.trans options }⟩

/-- The payloads of a class are those of methods of the class. -/
theorem weaveMethods_rewrites {file : ClassFile} (harmless : ∀ probe ∈ probes, probe.Harmless)
    {className : String} {options : Options} {hierarchy : Hierarchy} {target : RewriteTarget} {fault : Option ReadError}
    (woven : weaveMethods probes file.entries className options file.methods.zipIdx
      (RewriteTarget.start className file.major (ConstantPool.ofEntries file.entries) hierarchy
        options) = (target, fault))
    {index : Nat} {payload : Bytes} (rewritten : (index, payload) ∈ target.rewritten) :
    ∃ before pool member name descriptor, Visits.Rewrites probes file.entries className
      file.methods.zipIdx (RewriteTarget.start className file.major
        (ConstantPool.ofEntries file.entries) hierarchy options) target before pool member name
      descriptor index payload := by
  have visits := weaveMethods_visits probes file.entries className options file.methods.zipIdx
    (RewriteTarget.start className file.major (ConstantPool.ofEntries file.entries) hierarchy options)
  rw [woven] at visits
  rcases visits.rewrites harmless .refl index payload rewritten with old | new
  · cases old
  · exact new

end ClassWeave
