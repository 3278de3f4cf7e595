/-
# ClassWeave.Proofs.UnderConstruction -- where the objects in frames come from

The type of an object under construction names the site of the instruction that created
it, by a label.  Nothing but a creating instruction makes such a type: merging, moving
and running other instructions only pass types on that were there (`Frame.execute_sites`).
So what a rewrite knows of such objects are sites of its own instructions, and those that
were brought in from outside: with a frame of the method that the simulation could say
nothing about (`MethodRewrite.Strays`), or with a frame that injected code asked for.

All that is known of types along a rewrite goes through `MethodRewrite.SitesIn`, which
leaves open what kind of label a site is.
-/
import ClassWeave.Proofs.FrameEvents
import ClassWeave.Proofs.FrameSteps
import ClassWeave.Proofs.Moments

set_option autoImplicit false

namespace ClassWeave

/-- Objects under construction among the types were created at sites of that kind. -/
def SitesIn (kind : Label → Prop) (types : List FrameType) : Prop :=
  ∀ site, .uninitialized site ∈ types → kind site

theorem SitesIn.mono {kind other : Label → Prop} {types : List FrameType}
    (sites : SitesIn kind types) (implies : ∀ site, kind site → other site) :
    SitesIn other types := fun site among => implies site (sites site among)

theorem SitesIn.of_subset {kind : Label → Prop} {types others : List FrameType}
    (sites : SitesIn kind types) (subset : others ⊆ types) : SitesIn kind others :=
  fun site among => sites site (subset among)

/-- Spreading wide types over two slots brings in no sites. -/
theorem SitesIn.expandLocals {kind : Label → Prop} {locals : List FrameType}
    (sites : SitesIn kind locals) : SitesIn kind (ClassWeave.expandLocals locals) := by
  intro site among
  obtain ⟨type, known, own⟩ := List.mem_flatMap.1 among
  split at own
  · rcases List.mem_cons.1 own with rfl | second
    · exact sites site known
    · cases List.mem_singleton.1 second
  · rw [← List.mem_singleton.1 own] at known
    exact sites site known

theorem SitesIn.cons {kind : Label → Prop} {type : FrameType} {types : List FrameType}
    (own : ∀ site, type = .uninitialized site → kind site) (sites : SitesIn kind types) :
    SitesIn kind (type :: types) := by
  intro site among
  rcases List.mem_cons.1 among with same | among
  · exact own site same.symm
  · exact sites site among

theorem SitesIn.append {kind : Label → Prop} {types others : List FrameType}
    (first : SitesIn kind types) (second : SitesIn kind others) :
    SitesIn kind (types ++ others) := fun site among =>
  (List.mem_append.1 among).elim (first site) (second site)

structure Frame.SitesIn (kind : Label → Prop) (frame : Frame) : Prop where
  locals : ClassWeave.SitesIn kind frame.locals
  stack : ClassWeave.SitesIn kind frame.stack

theorem Frame.SitesIn.mono {kind other : Label → Prop} {frame : Frame}
    (sites : frame.SitesIn kind) (implies : ∀ site, kind site → other site) :
    frame.SitesIn other := ⟨sites.locals.mono implies, sites.stack.mono implies⟩

/-! ## Merging -/

theorem trimTop_subset (types : List FrameType) : trimTop types ⊆ types := by
  obtain ⟨tops, split, _⟩ := trimTop_append types
  intro type among
  rw [← split]
  exact List.mem_append_left tops among

theorem compactEntries_subset : ∀ types : List FrameType, compactEntries types ⊆ types
  | [] => List.Subset.refl _
  | [type] => by
    rw [compactEntries]
    split <;> exact List.Subset.refl _
  | type :: upper :: rest => by
    rw [compactEntries]
    split
    · exact List.cons_subset_cons type
        (List.Subset.trans (compactEntries_subset rest) (List.subset_cons_self upper rest))
    · exact List.cons_subset_cons type (compactEntries_subset (upper :: rest))

theorem compactLocals_subset (locals : List FrameType) : compactLocals locals ⊆ locals :=
  List.Subset.trans (trimTop_subset _) (compactEntries_subset locals)

variable {kind : Label → Prop}

/-- A merge makes no object under construction. -/
theorem FrameType.merge_site {hierarchy : Hierarchy} {a b : FrameType} {site : Label}
    (same : merge hierarchy a b = .uninitialized site) : a = .uninitialized site := by
  unfold merge at same
  split at same
  · exact same
  · split at same
    · cases same
    · cases same
    · split at same <;> cases same
    · cases same

theorem SitesIn.zipWith_merge (hierarchy : Hierarchy) : ∀ {a : List FrameType},
    SitesIn kind a → ∀ b, SitesIn kind (List.zipWith (FrameType.merge hierarchy) a b)
  | [], _, _ => nofun
  | _ :: _, _, [] => nofun
  | type :: a, sites, other :: b => by
    have rest : SitesIn kind a := sites.of_subset (List.subset_cons_self type a)
    refine .cons (fun site same => ?_) (rest.zipWith_merge hierarchy b)
    exact sites site (FrameType.merge_site same ▸ List.mem_cons_self)

namespace Frame

theorem mergeLocals_sites (hierarchy : Hierarchy) {a : List FrameType}
    (sites : ClassWeave.SitesIn kind a) (b : List FrameType) :
    ClassWeave.SitesIn kind (mergeLocals hierarchy a b) :=
  (sites.zipWith_merge hierarchy b).of_subset (trimTop_subset _)

theorem merge_sites (hierarchy : Hierarchy) {a : Frame} (sites : a.SitesIn kind) (b : Frame) :
    (merge hierarchy a b).SitesIn kind := by
  refine ⟨mergeLocals_sites hierarchy sites.locals b.locals, ?_⟩
  show ClassWeave.SitesIn kind (mergeStacks hierarchy a.stack b.stack)
  unfold mergeStacks
  split
  · exact (sites.stack.zipWith_merge hierarchy b.stack).of_subset (List.dropWhile_subset _)
  · exact sites.stack

theorem foldl_mergeLocals_sites (hierarchy : Hierarchy) (others : List (List FrameType)) :
    ∀ {first : List FrameType}, ClassWeave.SitesIn kind first →
      ClassWeave.SitesIn kind (others.foldl (mergeLocals hierarchy) first) := by
  induction others with
  | nil => exact fun sites => sites
  | cons other others ih => exact fun sites => ih (mergeLocals_sites hierarchy sites other)

end Frame

/-! ## Running instructions -/

namespace Frame

theorem store_sites {frame : Frame} (sites : frame.SitesIn kind) (slot : Nat) {type : FrameType}
    (own : ∀ site, type = .uninitialized site → kind site) :
    (frame.store slot type).SitesIn kind := by
  have set {locals : List FrameType} (known : ClassWeave.SitesIn kind locals) (i : Nat)
      {other : FrameType} (fine : ∀ site, other = .uninitialized site → kind site) :
      ClassWeave.SitesIn kind (locals.set i other) := by
    intro site among
    rcases List.mem_or_eq_of_mem_set among with old | new
    · exact known site old
    · exact fine site new.symm
  have padded_ : ClassWeave.SitesIn kind (padded frame.locals (slot + type.slots)) := by
    unfold padded
    simp only
    split
    · exact sites.locals
    · refine sites.locals.append fun site among => ?_
      cases List.eq_of_mem_replicate among
  -- Storing pads the locals, releases a wide value that it cuts, and only then sets the slot.
  have released_ : ClassWeave.SitesIn kind
      (released (padded frame.locals (slot + type.slots)) slot) := by
    unfold released
    split
    · exact padded_
    · split
      · exact set padded_ _ nofun
      · exact padded_
  refine ⟨?_, sites.stack⟩
  show ClassWeave.SitesIn kind (ite _ _ _)
  split
  · exact set (set released_ slot own) _ nofun
  · exact set released_ slot own

theorem construct_sites {frame : Frame} (sites : frame.SitesIn kind) (receiver : FrameType)
    (owner : String) : (frame.construct receiver owner).SitesIn kind := by
  have built {types : List FrameType} (known : ClassWeave.SitesIn kind types) :
      ClassWeave.SitesIn kind
        (types.map fun type => if type = receiver then .object owner else type) := by
    intro site among
    obtain ⟨type, own, same⟩ := List.mem_map.1 among
    split at same
    · cases same
    · exact known site (same ▸ own)
  exact ⟨built sites.locals, built sites.stack⟩

/-- **Running an instruction makes no object under construction**, unless it is a creating one. -/
theorem execute_sites {frame after : Frame} {insn : Instruction} {position : Label}
    {className : String} (sites : frame.SitesIn kind)
    (created : ∀ name, insn = .type Opcode.new name → kind position)
    (ran : frame.execute insn position className = .ok after) : after.SitesIn kind := by
  constructor
  · refine execute_locals (ClassWeave.SitesIn kind) sites.locals ?_ ?_ ran
    · intro slot type among
      exact (store_sites sites slot fun site same => sites.stack site (same ▸ among)).locals
    · exact fun receiver _ owner => (construct_sites sites receiver owner).locals
  · intro site among
    refine execute_stack (fun type => ∀ site, type = .uninitialized site → kind site) ?_ ?_ ?_ ?_
      ran _ among site rfl
    · rintro type value site rfl
      cases value
    · rintro type held site rfl
      exact sites.stack site held
    · intro slot filled site same
      unfold load at filled same
      cases known : frame.locals[slot]? with
      | none => exact absurd (by rw [known]; rfl) filled
      | some type =>
        rw [known, Option.getD_some] at same
        exact sites.locals site (same ▸ List.mem_of_getElem? known)
    · intro name same site own
      exact FrameType.uninitialized.inj own ▸ created name same

theorem afterFailure_sites {frame : Frame} (sites : frame.SitesIn kind) (insn : Instruction)
    (position : Label) : (frame.afterFailure insn position).SitesIn kind := by
  refine ⟨?_, sites.stack.of_subset (stack_afterFailure_subset frame insn position)⟩
  rw [locals_afterFailure]
  exact sites.locals

/-- A method is entered with no object that it has created. -/
theorem initial_sites {className methodName descriptor : String} {isStatic : Bool} {frame : Frame}
    (made : initial className methodName descriptor isStatic = .ok frame) :
    frame.SitesIn kind := by
  obtain ⟨type, _, made⟩ := Outcome.bind_eq_ok.1 made
  obtain ⟨params, each, made⟩ := Outcome.bind_eq_ok.1 made
  cases made
  refine ⟨.append ?_ ?_, nofun⟩
  · unfold receiver
    split
    · exact nofun
    · split <;> exact .cons nofun nofun
  · intro site among
    obtain ⟨param, known, among⟩ := List.mem_flatMap.1 among
    obtain ⟨value, _, told⟩ := Outcome.exists_of_forall₂ (Outcome.mapM_eq_ok.1 each) param known
    have own : .uninitialized site ≠ param := by
      rintro rfl
      cases FrameType.isValue_of_ofValue told
    unfold FrameType.spread at among
    split at among
    · simp only [List.mem_cons, List.not_mem_nil, or_false, reduceCtorEq] at among
      exact absurd among own
    · exact absurd (List.mem_singleton.1 among) own

end Frame

/-- The types that a frame request brings in. -/
def FrameRequest.types : FrameRequest → List FrameType
  | .replace types | .append types => types
  | .same => []

def PinnedFrame.SitesIn (kind : Label → Prop) (pinned : PinnedFrame) : Prop :=
  Frame.SitesIn kind ⟨pinned.locals, pinned.stack⟩

namespace MethodRewrite

/-! ## What a rewrite knows -/

/-- Objects under construction in any frame that the rewrite has or has recorded were created at
sites of that kind. -/
structure SitesIn (kind : Label → Prop) (rewrite : MethodRewrite) : Prop where
  current : rewrite.current.SitesIn kind
  saved : ∀ (label : Label) (frame : Frame), rewrite.saved[label]? = some frame → frame.SitesIn kind
  snapshots : ∀ locals ∈ rewrite.snapshots.toList, ClassWeave.SitesIn kind locals
  prefixLocals : ClassWeave.SitesIn kind rewrite.prefixLocals
  frames : ∀ pinned ∈ rewrite.body.frames.toList, pinned.SitesIn kind

/-- The frames that a rewrite has or has recorded. -/
def knowledge (rewrite : MethodRewrite) :=
  (rewrite.current, rewrite.saved, rewrite.snapshots, rewrite.prefixLocals, rewrite.body.frames)

namespace SitesIn

variable {rewrite after : MethodRewrite}

theorem congr (sites : rewrite.SitesIn kind) (same : after.knowledge = rewrite.knowledge) :
    after.SitesIn kind := by
  simp only [knowledge, Prod.mk.injEq] at same
  obtain ⟨current, saved, snapshots, prefixLocals, frames⟩ := same
  exact ⟨current ▸ sites.current, saved ▸ sites.saved, snapshots ▸ sites.snapshots,
    prefixLocals ▸ sites.prefixLocals, frames ▸ sites.frames⟩

theorem mono {other : Label → Prop} (sites : rewrite.SitesIn kind)
    (implies : ∀ site, kind site → other site) : rewrite.SitesIn other :=
  ⟨sites.current.mono implies, fun label frame known => (sites.saved label frame known).mono implies,
    fun locals among => (sites.snapshots locals among).mono implies,
    sites.prefixLocals.mono implies, fun pinned among => (sites.frames pinned among).mono implies⟩

theorem moveTo (sites : rewrite.SitesIn kind) {frame : Frame} (own : frame.SitesIn kind) :
    (rewrite.moveTo frame).SitesIn kind :=
  ⟨own, sites.saved, sites.snapshots, sites.prefixLocals, sites.frames⟩

theorem endPrefix (sites : rewrite.SitesIn kind) : rewrite.endPrefix.SitesIn kind := by
  unfold MethodRewrite.endPrefix
  split
  · exact ⟨sites.current, sites.saved, sites.snapshots, sites.current.locals, sites.frames⟩
  · exact sites

theorem recordFrame (sites : rewrite.SitesIn kind) (label : Label) :
    (rewrite.recordFrame label).SitesIn kind := by
  refine ⟨sites.current, sites.saved, sites.snapshots, sites.prefixLocals, ?_⟩
  intro pinned among
  have among : pinned ∈ (rewrite.body.frames.push ⟨label, compactLocals rewrite.current.locals,
    rewrite.current.stack.reverse⟩).toList := among
  rw [Array.toList_push] at among
  rcases List.mem_append.1 among with old | new
  · exact sites.frames pinned old
  · rw [List.mem_singleton.1 new]
    exact ⟨sites.current.locals.of_subset (compactLocals_subset _),
      sites.current.stack.of_subset (List.reverse_subset.2 (List.Subset.refl _))⟩

theorem start (target : RewriteTarget) (method : MethodContext) :
    (MethodRewrite.start target method).SitesIn kind := by
  have current : (MethodRewrite.start target method).current.SitesIn kind := by
    unfold MethodRewrite.start
    cases made : Frame.initial target.className method.name method.descriptor method.isStatic with
    | ok frame => exact Frame.initial_sites made
    | error => exact ⟨nofun, nofun⟩
  refine ⟨current, fun label frame known => ?_, List.forall_mem_nil _, nofun,
    List.forall_mem_nil _⟩
  cases known

/-! ### Instructions -/

theorem simulate (sites : rewrite.SitesIn kind) {insn : Instruction} {position : Label}
    (created : ∀ name, insn = .type Opcode.new name → kind position) :
    (rewrite.simulate insn position).SitesIn kind := by
  unfold MethodRewrite.simulate
  split
  · split
    · have own : Frame.SitesIn kind _ := Frame.execute_sites sites.current created ‹_›
      exact ⟨own, sites.saved, sites.snapshots, sites.prefixLocals, sites.frames⟩
    · exact (sites.moveTo (Frame.afterFailure_sites sites.current insn position)).congr rfl
  · exact sites

theorem carry (sites : rewrite.SitesIn kind) (label : Label) :
    (rewrite.carry label).SitesIn kind := by
  have put {frame : Frame} (own : frame.SitesIn kind) : ∀ (other : Label) (found : Frame),
      (rewrite.saved.insert label frame)[other]? = some found → found.SitesIn kind := by
    intro other found known
    rw [Std.TreeMap.getElem?_insert] at known
    split at known
    · cases known
      exact own
    · exact sites.saved other found known
  unfold MethodRewrite.carry
  split
  · exact sites
  · split
    · exact ⟨sites.current, put sites.current, sites.snapshots, sites.prefixLocals, sites.frames⟩
    · rename_i frame known
      have merged := Frame.merge_sites rewrite.target.hierarchy
        (sites.saved label frame known) rewrite.current
      exact ⟨sites.current, put merged, sites.snapshots, sites.prefixLocals, sites.frames⟩

theorem foldl_carry (labels : List Label) : ∀ {rewrite : MethodRewrite}, rewrite.SitesIn kind →
    (labels.foldl MethodRewrite.carry rewrite).SitesIn kind := by
  induction labels with
  | nil => exact fun sites => sites
  | cons label labels ih => exact fun sites => ih (sites.carry label)

theorem leave (sites : rewrite.SitesIn kind) (insn : Instruction) :
    (rewrite.leave insn).SitesIn kind := by
  have carried : (if rewrite.reachable then insn.targets.foldl MethodRewrite.carry rewrite
      else rewrite).SitesIn kind := by
    split
    · exact foldl_carry _ sites
    · exact sites
  unfold MethodRewrite.leave
  simp only
  generalize (if rewrite.reachable then insn.targets.foldl MethodRewrite.carry rewrite
    else rewrite) = gone at carried
  have ended : (if insn.opcode.endsFlow || !insn.targets.isEmpty then gone.endPrefix
      else gone).SitesIn kind := by
    split
    · exact carried.endPrefix
    · exact carried
  split
  · generalize (if insn.opcode.endsFlow || !insn.targets.isEmpty then gone.endPrefix
      else gone) = left at ended
    have emptied : Frame.SitesIn kind ⟨left.current.locals, []⟩ := ⟨ended.current.locals, nofun⟩
    exact (ended.moveTo emptied).congr rfl
  · exact ended

/-- An instruction that creates an object does so at its own place. -/
theorem pass (sites : rewrite.SitesIn kind) {insn : Instruction} {position : Label}
    (created : ∀ name, insn = .type Opcode.new name → kind position) :
    (rewrite.pass insn position).SitesIn kind := by
  have noted : SitesIn kind
      { rewrite with snapshots := rewrite.snapshots.push rewrite.current.locals } := by
    refine ⟨sites.current, sites.saved, ?_, sites.prefixLocals, sites.frames⟩
    intro locals among
    rw [Array.toList_push] at among
    rcases List.mem_append.1 among with old | new
    · exact sites.snapshots locals old
    · rw [List.mem_singleton.1 new]
      exact sites.current.locals
  exact ((noted.simulate created).leave insn).congr rfl

/-! ### Labels -/

theorem handlerFrame (sites : rewrite.SitesIn kind) (handler : Label) :
    (rewrite.handlerFrame handler).SitesIn kind := by
  have covered : ∀ locals ∈ (rewrite.rangesOf handler).flatMap rewrite.covered,
      ClassWeave.SitesIn kind locals := by
    intro locals among
    obtain ⟨block, _, among⟩ := List.mem_flatMap.1 among
    unfold MethodRewrite.covered at among
    split at among
    · cases among
    · refine sites.snapshots locals ?_
      rw [Array.toList_extract] at among
      exact List.mem_of_mem_drop (List.mem_of_mem_take among)
  refine ⟨?_, .cons nofun nofun⟩
  show ClassWeave.SitesIn kind (Option.getD (common _ _) _)
  cases listed : (rewrite.rangesOf handler).flatMap rewrite.covered with
  | nil => exact sites.current.locals
  | cons first rest =>
    rw [listed] at covered
    exact Frame.foldl_mergeLocals_sites _ _ (covered first List.mem_cons_self)

theorem arriving (sites : rewrite.SitesIn kind) {label : Label} {frame : Frame}
    (arrives : rewrite.arriving label = some frame) : frame.SitesIn kind := by
  unfold MethodRewrite.arriving at arrives
  split at arrives
  · cases arrives
    exact sites.handlerFrame label
  · unfold incoming at arrives
    split at arrives
    · cases arrives
      exact Frame.merge_sites _ sites.current _
    · cases arrives
      exact sites.current
    · exact sites.saved label frame arrives

theorem placeLabel (sites : rewrite.SitesIn kind) (label : Label) :
    (rewrite.placeLabel label).SitesIn kind := by
  have erased : ∀ (other : Label) (found : Frame), (rewrite.saved.erase label)[other]? = some found →
      found.SitesIn kind := by
    intro other found known
    rw [Std.TreeMap.getElem?_erase] at known
    split at known
    · cases known
    · exact sites.saved other found known
  unfold MethodRewrite.placeLabel
  simp only
  split
  · rename_i frame arrives
    exact ⟨sites.arriving arrives, erased, sites.snapshots, sites.prefixLocals, sites.frames⟩
  · exact ⟨⟨sites.prefixLocals, nofun⟩, erased, sites.snapshots, sites.prefixLocals, sites.frames⟩

theorem labelHere (sites : rewrite.SitesIn kind) : rewrite.labelHere.2.SitesIn kind := by
  cases group : rewrite.group with
  | cons label others =>
    rw [labelHere_of_group rewrite group]
    exact sites
  | nil =>
    rw [labelHere_of_empty rewrite group]
    have fresh : rewrite.freshLabel.2.SitesIn kind := sites.congr rfl
    exact fresh.placeLabel _

/-! ### Frames that are asked for -/

theorem grantFrame (sites : rewrite.SitesIn kind) (label : Label) {wanted : FrameRequest}
    (own : ClassWeave.SitesIn kind wanted.types) : (rewrite.grantFrame label wanted).SitesIn kind := by
  have stack : ClassWeave.SitesIn kind (requestedStack rewrite.current.stack wanted) := by
    cases wanted with
    | replace stack => exact own.of_subset (List.reverse_subset.2 (List.Subset.refl _))
    | append types =>
      exact (own.of_subset (List.reverse_subset.2 (List.Subset.refl _))).append sites.current.stack
    | same => exact sites.current.stack
  have frame : (rewrite.requestedFrame label wanted).SitesIn kind := by
    refine ⟨?_, stack⟩
    show ClassWeave.SitesIn kind (ite _ _ _)
    split
    · exact (sites.handlerFrame label).locals
    · exact sites.current.locals
  unfold MethodRewrite.grantFrame
  simp only
  generalize (if rewrite.isHandler label then rewrite.handlerQuestions label else []) = questions
  have asked : (rewrite.ask questions).SitesIn kind := sites.congr rfl
  exact ((asked.endPrefix.moveTo frame).recordFrame label).congr rfl

theorem askFrame (sites : rewrite.SitesIn kind) (label : Label) {wanted : FrameRequest}
    (own : ClassWeave.SitesIn kind wanted.types) : (rewrite.askFrame label wanted).2.SitesIn kind := by
  have asked : (rewrite.requestFrame label wanted).2.SitesIn kind := by
    unfold requestFrame
    split
    · exact sites
    · simp only
      split
      · exact sites.congr rfl
      · split
        · exact sites.congr rfl
        · exact sites.congr rfl
        · rename_i ledger _
          have booked : SitesIn kind { rewrite with injected := true, ledger := ledger } :=
            sites.congr rfl
          exact booked.grantFrame label own
  unfold MethodRewrite.askFrame
  generalize rewrite.requestFrame label wanted = answer at asked
  obtain ⟨_ | _, after⟩ := answer
  · exact asked.congr rfl
  · exact asked

end SitesIn

/-! ### Frames of the method -/

/-- What a rewrite knows of the stack and the locals where a frame of the method comes in. -/
def simulated (rewrite : MethodRewrite) : Frame := rewrite.labelHere.2.current

/-- The frame of the method names the site of an object where the simulation knows of none, and is
not passed over.  So the site is taken as it is. -/
structure Strays (rewrite : MethodRewrite) (locals stack : List FrameType) (site : Label) :
    Prop where
  taken : rewrite.frameRequestedHere = false
  somewhere :
    (∃ slot < rewrite.originalMaxLocals.toNat,
      (expandLocals locals)[slot]? = some (.uninitialized site) ∧
      ∀ other : Label, rewrite.simulated.locals[slot]? ≠ some (.uninitialized other)) ∨
    ∃ depth : Nat, stack.reverse[depth]? = some (.uninitialized site) ∧
      (stack.length = rewrite.simulated.stack.length →
        ∀ other : Label, rewrite.simulated.stack[depth]? ≠ some (.uninitialized other))

/-- A type of the method names the site that the simulation knows, or else its own. -/
theorem remap_site {original : FrameType} {simulated : Option FrameType} {site : Label}
    (same : remap original simulated = .uninitialized site) :
    simulated = some (.uninitialized site) ∨ original = .uninitialized site ∧
      ∀ other : Label, simulated ≠ some (.uninitialized other) := by
  unfold remap at same
  split at same
  · exact .inl (congrArg some same)
  · rename_i none_
    subst same
    exact .inr ⟨rfl, fun other known => none_ site other rfl known⟩

theorem mergedLocals_site {site : Label} : ∀ {known : Nat} {original current : List FrameType},
    .uninitialized site ∈ mergedLocals known original current → .uninitialized site ∈ current ∨
      ∃ slot < known, original[slot]? = some (.uninitialized site) ∧
        ∀ other : Label, current[slot]? ≠ some (.uninitialized other)
  | 0, _, _, among => .inl among
  | known + 1, original, current, among => by
    rw [mergedLocals] at among
    rcases List.mem_cons.1 among with first | later
    · rcases remap_site first.symm with simulated | ⟨own, unknown⟩
      · exact .inl (List.mem_of_mem_head? simulated)
      · refine .inr ⟨0, Nat.succ_pos _, ?_, fun other => ?_⟩
        · cases original with
          | nil => cases own
          | cons type rest => exact congrArg some own
        · rw [← List.head?_eq_getElem?]
          exact unknown other
    · rcases mergedLocals_site later with simulated | ⟨slot, within, own, unknown⟩
      · exact .inl (List.mem_of_mem_tail simulated)
      · rw [List.getElem?_tail] at own
        refine .inr ⟨slot + 1, Nat.succ_lt_succ within, own, fun other => ?_⟩
        rw [← List.getElem?_tail]
        exact unknown other

theorem mergedStack_site {site : Label} {original current : List FrameType}
    (among : .uninitialized site ∈ mergedStack original current) : .uninitialized site ∈ current ∨
      ∃ depth : Nat, original[depth]? = some (.uninitialized site) ∧
        (original.length = current.length →
          ∀ other : Label, current[depth]? ≠ some (.uninitialized other)) := by
  unfold mergedStack at among
  split at among
  -- Stacks of one height are merged place by place; otherwise the stack of the method is taken.
  · rename_i size
    obtain ⟨depth, place⟩ := List.mem_iff_getElem?.1 among
    rw [List.getElem?_zipWith] at place
    cases own : original[depth]? with
    | none =>
      rw [own] at place
      cases place
    | some type =>
      cases simulated : current[depth]? with
      | none =>
        rw [own, simulated] at place
        cases place
      | some other =>
        rw [own, simulated] at place
        rcases remap_site (Option.some.inj place) with known | ⟨rfl, unknown⟩
        · exact .inl (List.mem_of_getElem? (simulated.trans known))
        · refine .inr ⟨depth, own, fun _ => ?_⟩
          rw [simulated]
          exact unknown
  · rename_i size
    obtain ⟨depth, place⟩ := List.mem_iff_getElem?.1 among
    exact .inr ⟨depth, place, fun same => absurd same size⟩

theorem SitesIn.originalFrame {rewrite : MethodRewrite} (sites : rewrite.SitesIn kind)
    {locals stack : List FrameType} (strays : ∀ site, rewrite.Strays locals stack site → kind site) :
    (rewrite.originalFrame locals stack).SitesIn kind := by
  unfold MethodRewrite.originalFrame
  split
  · exact sites
  · rename_i taken
    rw [Bool.not_eq_true] at taken
    have here := sites.labelHere
    have same : rewrite.labelHere.2.originalMaxLocals = rewrite.originalMaxLocals :=
      rewrite.known_labelHere
    have merged : Frame.SitesIn kind
        ⟨mergedLocals rewrite.originalMaxLocals.toNat (expandLocals locals) rewrite.simulated.locals,
          mergedStack stack.reverse rewrite.simulated.stack⟩ := by
      constructor
      · intro site among
        rcases mergedLocals_site among with simulated | own
        · exact here.current.locals site simulated
        · exact strays site ⟨taken, .inl own⟩
      · intro site among
        rcases mergedStack_site among with simulated | own
        · exact here.current.stack site simulated
        · rw [List.length_reverse] at own
          exact strays site ⟨taken, .inr own⟩
    -- Before it is merged a label is made and the prefix ended; neither touches what is read.
    have ended : rewrite.labelHere.2.endPrefix.current = rewrite.simulated ∧
        rewrite.labelHere.2.endPrefix.originalMaxLocals = rewrite.originalMaxLocals := by
      rw [← same]
      unfold MethodRewrite.endPrefix
      split <;> exact ⟨rfl, rfl⟩
    rw [← ended.1, ← ended.2] at merged
    exact ((here.endPrefix.moveTo merged).recordFrame rewrite.labelHere.1).congr rfl

end MethodRewrite

end ClassWeave
