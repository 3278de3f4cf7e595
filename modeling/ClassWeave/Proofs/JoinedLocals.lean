/-
# ClassWeave.Proofs.JoinedLocals -- what the simulation assumes is safe to assume

Locals are a bound of others if merging the others into them changes nothing.  Where the
simulation goes on after a label, its locals are a bound of those that fall or jump
forward to it (`LabelsJoin`), and the locals of a handler are a bound of those before
every instruction that it covers (`HandlersJoin`).  Which instructions these are is told
by number while the method is rewritten; in the assembled code they are those between
the offsets of two labels (`RangesMeasured`).

What a forward jump carries to a label not placed yet only grows from then on, which is
what `Carries` says of a past and the rewrite it leads to.

Bounds need a hierarchy whose merges are lawful.  That its common superclasses form a
semilattice under the root class is not enough: merging takes names that begin with a
bracket for arrays, so no other classes may have such a common superclass
(`Hierarchy.Plain`).
-/
import ClassWeave.Proofs.Moments
import ClassWeave.Proofs.TypeJoins

set_option autoImplicit false

namespace ClassWeave

namespace Hierarchy

/-- Common superclasses are the joins of an order in which the root class is above all others. -/
structure Semilattice (hierarchy : Hierarchy) : Prop where
  same : ∀ name, hierarchy.commonSuperclass name name = name
  comm : ∀ left right,
    hierarchy.commonSuperclass left right = hierarchy.commonSuperclass right left
  assoc : ∀ left middle right,
    hierarchy.commonSuperclass (hierarchy.commonSuperclass left middle) right =
      hierarchy.commonSuperclass left (hierarchy.commonSuperclass middle right)
  root : ∀ name, hierarchy.commonSuperclass name ClassName.object = ClassName.object

/-- Classes that are no arrays have no common superclass that is named like one. -/
def Plain (hierarchy : Hierarchy) : Prop :=
  ∀ left right, isArray left = false → isArray right = false →
    isArray (hierarchy.commonSuperclass left right) = false

/-- Merging the other locals into the bound changes nothing but empty slots at the end. -/
def Bounds (hierarchy : Hierarchy) (bound locals : List FrameType) : Prop :=
  trimTop (Frame.mergeLocals hierarchy bound locals) = trimTop bound

instance (hierarchy : Hierarchy) (bound locals : List FrameType) :
    Decidable (hierarchy.Bounds bound locals) :=
  inferInstanceAs (Decidable (_ = _))

theorem Semilattice.joins {hierarchy : Hierarchy} (semilattice : hierarchy.Semilattice)
    (plain : hierarchy.Plain) : hierarchy.Joins fun left right =>
      right = left ∨ right = ClassName.object ∨
        isArray left = false ∧ isArray right = false ∧
          hierarchy.commonSuperclass left right = right where
  refl _ := .inl rfl
  antisymm := by
    have top {other : String} (higher : hierarchy.commonSuperclass ClassName.object other = other) :
        other = ClassName.object := by
      rw [← higher, semilattice.comm, semilattice.root]
    rintro left right (same | rfl | ⟨_, _, higher⟩) (same' | rfl | ⟨_, _, back⟩)
    · exact same.symm
    · exact same.symm
    · exact same.symm
    · exact same'
    · rfl
    · exact top back
    · exact same'
    · exact (top higher).symm
    · rw [← back, semilattice.comm, higher]
  root _ := .inr (.inl rfl)
  least := by
    intro left right leftPlain rightPlain apart other
    have common := plain left right leftPlain rightPlain
    -- The join lies above both, and below whatever else does: the two halves of its being least.
    constructor
    · rintro (rfl | root | ⟨_, otherPlain, higher⟩)
      · refine ⟨.inr (.inr ⟨leftPlain, common, ?_⟩), .inr (.inr ⟨rightPlain, common, ?_⟩)⟩
        · rw [← semilattice.assoc, semilattice.same]
        · rw [semilattice.comm, semilattice.assoc, semilattice.same]
      · exact ⟨.inr (.inl root), .inr (.inl root)⟩
      · refine ⟨.inr (.inr ⟨leftPlain, otherPlain, ?_⟩), .inr (.inr ⟨rightPlain, otherPlain, ?_⟩)⟩
        · rw [← higher, ← semilattice.assoc, ← semilattice.assoc, semilattice.same]
        · rw [← higher, semilattice.comm left right, ← semilattice.assoc, ← semilattice.assoc,
            semilattice.same]
    · rintro ⟨rfl | root | ⟨_, otherPlain, first⟩, second⟩
      · rcases second with same | root | ⟨_, _, second⟩
        · exact absurd same apart
        · exact .inr (.inl root)
        · exact .inl (by rw [semilattice.comm, second])
      · exact .inr (.inl root)
      · rcases second with rfl | root | ⟨_, _, second⟩
        · exact .inl first.symm
        · exact .inr (.inl root)
        · exact .inr (.inr ⟨common, otherPlain, by rw [semilattice.assoc, second, first]⟩)
  array := by
    rintro left right array (same | root | ⟨leftPlain, _⟩)
    · exact .inl same
    · exact .inr root
    · rw [leftPlain] at array
      cases array
  arrayAbove := by
    rintro left right array (same | rfl | ⟨_, rightPlain, _⟩)
    · exact same
    · cases array
    · rw [rightPlain] at array
      cases array

/-! ## Bounds -/

theorem bounds_iff {hierarchy : Hierarchy} {bound locals : List FrameType} :
    hierarchy.Bounds bound locals ↔
      ∀ i, FrameType.merge hierarchy (slotAt bound i) (slotAt locals i) = slotAt bound i := by
  constructor
  · intro same i
    have slot := congrArg (slotAt · i) same
    simp only [slotAt_trimTop, Frame.slotAt_mergeLocals_eq] at slot
    exact slot
  · intro same
    refine trimTop_congr fun i => ?_
    rw [Frame.slotAt_mergeLocals_eq, same]

section Bounds

variable {hierarchy : Hierarchy} (lawful : hierarchy.Lawful) {a b c : List FrameType}

include lawful

theorem Bounds.refl (locals : List FrameType) : hierarchy.Bounds locals locals :=
  bounds_iff.2 fun _ => lawful.idempotent _

theorem Bounds.trans (first : hierarchy.Bounds a b) (second : hierarchy.Bounds b c) :
    hierarchy.Bounds a c := by
  rw [bounds_iff] at first second ⊢
  intro i
  rw [← first i, lawful.associative, second i]

theorem Bounds.left (a b : List FrameType) :
    hierarchy.Bounds (Frame.mergeLocals hierarchy a b) a := by
  refine bounds_iff.2 fun i => ?_
  rw [Frame.slotAt_mergeLocals_eq, lawful.commutative, ← lawful.associative, lawful.idempotent]

theorem Bounds.right (a b : List FrameType) :
    hierarchy.Bounds (Frame.mergeLocals hierarchy a b) b := by
  refine bounds_iff.2 fun i => ?_
  rw [Frame.slotAt_mergeLocals_eq, lawful.associative, lawful.idempotent]

theorem Bounds.foldl_mergeLocals (others : List (List FrameType)) : ∀ first : List FrameType,
    hierarchy.Bounds (others.foldl (Frame.mergeLocals hierarchy) first) first ∧
      ∀ locals ∈ others,
        hierarchy.Bounds (others.foldl (Frame.mergeLocals hierarchy) first) locals := by
  induction others with
  | nil => exact fun first => ⟨.refl lawful first, fun _ among => nomatch among⟩
  | cons other others ih =>
    intro first
    obtain ⟨whole, each⟩ := ih (Frame.mergeLocals hierarchy first other)
    refine ⟨whole.trans lawful (.left lawful first other), fun locals among => ?_⟩
    rcases List.mem_cons.1 among with rfl | among
    · exact whole.trans lawful (.right lawful first locals)
    · exact each locals among

/-- What locals have in common is a bound of each of them. -/
theorem Bounds.common {all : List (List FrameType)} {locals : List FrameType}
    (among : locals ∈ all) :
    ∃ bound, MethodRewrite.common hierarchy all = some bound ∧ hierarchy.Bounds bound locals := by
  cases all with
  | nil => cases among
  | cons first rest =>
    obtain ⟨whole, each⟩ := Bounds.foldl_mergeLocals lawful rest first
    refine ⟨_, rfl, ?_⟩
    rcases List.mem_cons.1 among with rfl | among
    · exact whole
    · exact each locals among

end Bounds

end Hierarchy

namespace MethodRewrite

/-! ## What forward jumps carry -/

/-- The frame that is saved for a label is a bound of the locals. -/
def Saves (rewrite : MethodRewrite) (label : Label) (locals : List FrameType) : Prop :=
  ∃ frame, rewrite.saved[label]? = some frame ∧
    rewrite.target.hierarchy.Bounds frame.locals locals

section Saves

variable {rewrite : MethodRewrite} {label : Label} {locals : List FrameType}

theorem Saves.of_memory {after : MethodRewrite} (saves : rewrite.Saves label locals)
    (same : after.memory = rewrite.memory) : after.Saves label locals := by
  simp only [memory, Prod.mk.injEq] at same
  obtain ⟨saved, _, _, hierarchy, _⟩ := same
  rw [Saves, saved, hierarchy]
  exact saves

theorem Saves.carry (lawful : rewrite.target.hierarchy.Lawful) (other : Label)
    (saves : rewrite.Saves label locals) : (rewrite.carry other).Saves label locals := by
  obtain ⟨frame, found, bounds⟩ := saves
  unfold MethodRewrite.carry
  split
  · exact ⟨frame, found, bounds⟩
  · by_cases same : other = label
    · rw [same, found]
      refine ⟨Frame.merge rewrite.target.hierarchy frame rewrite.current, ?_, ?_⟩
      · exact Std.TreeMap.getElem?_insert_self
      · exact Hierarchy.Bounds.trans lawful (.left lawful _ _) bounds
    · have kept (frame' : Frame) : (rewrite.saved.insert other frame')[label]? = some frame := by
        rw [Std.TreeMap.getElem?_insert, if_neg (by rwa [Std.compare_eq_iff_eq])]
        exact found
      split
      · exact ⟨frame, kept _, bounds⟩
      · exact ⟨frame, kept _, bounds⟩

theorem saves_carry (lawful : rewrite.target.hierarchy.Lawful)
    (unplaced : rewrite.positions[label]? = none) :
    (rewrite.carry label).Saves label rewrite.current.locals := by
  unfold MethodRewrite.carry
  have absent : rewrite.positions.contains label = false := by
    rw [Std.TreeMap.contains_eq_isSome_getElem?, unplaced]
    rfl
  rw [absent, if_neg Bool.false_ne_true]
  split
  · exact ⟨rewrite.current, Std.TreeMap.getElem?_insert_self, .refl lawful _⟩
  · exact ⟨_, Std.TreeMap.getElem?_insert_self, .right lawful _ _⟩

theorem hierarchy_carry (rewrite : MethodRewrite) (other : Label) :
    (rewrite.carry other).target.hierarchy = rewrite.target.hierarchy :=
  congrArg (·.2.2.1) (rewrite.places_carry other)

theorem positions_carry (rewrite : MethodRewrite) (other : Label) :
    (rewrite.carry other).positions = rewrite.positions :=
  congrArg (·.1) (rewrite.places_carry other)

theorem current_carry (rewrite : MethodRewrite) (other : Label) :
    (rewrite.carry other).current = rewrite.current := by
  unfold MethodRewrite.carry
  split
  · rfl
  · split <;> rfl

theorem Saves.foldl_carry (others : List Label) : ∀ {rewrite : MethodRewrite},
    rewrite.target.hierarchy.Lawful → rewrite.Saves label locals →
    (others.foldl MethodRewrite.carry rewrite).Saves label locals := by
  induction others with
  | nil => exact fun _ saves => saves
  | cons other others ih =>
    intro rewrite lawful saves
    have lawful' : (rewrite.carry other).target.hierarchy.Lawful := by
      rw [hierarchy_carry]
      exact lawful
    exact ih lawful' (saves.carry lawful other)

/-- What is carried to a target that is not placed yet is saved. -/
theorem saves_foldl_carry (others : List Label) : ∀ {rewrite : MethodRewrite},
    rewrite.target.hierarchy.Lawful → rewrite.positions[label]? = none → label ∈ others →
    (others.foldl MethodRewrite.carry rewrite).Saves label rewrite.current.locals := by
  induction others with
  | nil => exact fun _ _ among => nomatch among
  | cons other others ih =>
    intro rewrite lawful unplaced among
    have lawful' : (rewrite.carry other).target.hierarchy.Lawful := by
      rw [hierarchy_carry]
      exact lawful
    rcases List.mem_cons.1 among with rfl | among
    · exact (saves_carry lawful unplaced).foldl_carry others lawful'
    · have unplaced' : (rewrite.carry other).positions[label]? = none := by
        rw [positions_carry]
        exact unplaced
      have kept := ih lawful' unplaced' among
      rwa [current_carry] at kept

end Saves

/-- The frame after the instruction. -/
def running (rewrite : MethodRewrite) (insn : Instruction) (position : Label) : Frame :=
  (rewrite.simulate insn position).current

section Pass

variable {rewrite : MethodRewrite} (insn : Instruction) (position : Label) {label : Label}
  {locals : List FrameType}

theorem current_ran (rewrite : MethodRewrite) :
    (rewrite.ran insn position).current = rewrite.running insn position := by
  unfold ran running simulate
  simp only
  split
  · split <;> rfl
  · rfl

theorem reachable_ran (rewrite : MethodRewrite) :
    (rewrite.ran insn position).reachable = rewrite.reachable := by
  unfold ran simulate
  simp only
  split
  · split <;> rfl
  · rfl

theorem saved_ran (rewrite : MethodRewrite) :
    (rewrite.ran insn position).saved = rewrite.saved := by
  unfold ran simulate
  simp only
  split
  · split <;> rfl
  · rfl

theorem hierarchy_ran (rewrite : MethodRewrite) :
    (rewrite.ran insn position).target.hierarchy = rewrite.target.hierarchy := by
  unfold ran
  exact congrArg (·.2.2.1) (places_simulate _ insn position)

theorem positions_ran (rewrite : MethodRewrite) :
    (rewrite.ran insn position).positions = rewrite.positions := by
  unfold ran
  exact congrArg (·.1) (places_simulate _ insn position)

/-- What leaving an instruction saves is what `carry` saves. -/
theorem saves_leave :
    (rewrite.leave insn).Saves label locals ↔
      (if rewrite.reachable then insn.targets.foldl MethodRewrite.carry rewrite
        else rewrite).Saves label locals := by
  have prefixes (rewrite : MethodRewrite) :
      rewrite.endPrefix.Saves label locals ↔ rewrite.Saves label locals := by
    unfold endPrefix
    split <;> rfl
  unfold leave
  simp only
  split <;> split <;> first
    | exact prefixes _
    | rfl

theorem Saves.pass (lawful : rewrite.target.hierarchy.Lawful)
    (saves : rewrite.Saves label locals) : (rewrite.pass insn position).Saves label locals := by
  have ran : (rewrite.ran insn position).Saves label locals := by
    rw [Saves, saved_ran, hierarchy_ran]
    exact saves
  refine (saves_leave insn).2 ?_
  split
  · exact ran.foldl_carry _ (by rwa [hierarchy_ran])
  · exact ran

/-- The locals after an instruction are saved for a target that is not placed yet. -/
theorem saves_pass (lawful : rewrite.target.hierarchy.Lawful)
    (unplaced : rewrite.positions[label]? = none) (reachable : rewrite.reachable = true)
    (targets : label ∈ insn.targets) :
    (rewrite.pass insn position).Saves label (rewrite.running insn position).locals := by
  refine (saves_leave insn).2 ?_
  rw [reachable_ran, if_pos reachable, ← current_ran]
  refine saves_foldl_carry _ ?_ ?_ targets
  · rwa [hierarchy_ran]
  · rwa [positions_ran]

end Pass

/-- What was carried to labels that are not placed is saved. -/
structure Carries (hierarchy : Hierarchy) (past : List Moment) (rewrite : MethodRewrite) :
    Prop where
  recalls : Recalls past rewrite
  hierarchy : rewrite.target.hierarchy = hierarchy
  carries : ∀ {insn position at_ label}, .run insn position at_ ∈ past → at_.reachable = true →
    label ∈ insn.targets → label ∉ past.filterMap Moment.label? →
    rewrite.Saves label (at_.running insn position).locals

theorem followed_carries {hierarchy : Hierarchy} (lawful : hierarchy.Lawful) :
    Followed (Carries hierarchy) where
  quiet := by
    intro past before after holds same
    refine ⟨followed_recalls.quiet holds.recalls same, ?_, ?_⟩
    · rw [← holds.hierarchy]
      exact congrArg (·.2.2.2.1) same
    · intro insn position at_ label among reachable targets unplaced
      exact (holds.carries among reachable targets unplaced).of_memory same
  placed := by
    intro past rewrite label holds
    have same : (rewrite.placeLabel label).target.hierarchy = rewrite.target.hierarchy :=
      congrArg (·.2.2.1) (rewrite.places_placeLabel label)
    refine ⟨followed_recalls.placed label holds.recalls, same.trans holds.hierarchy, ?_⟩
    intro insn position at_ other among reachable targets unplaced
    simp only [List.filterMap_append, List.mem_append, not_or] at unplaced
    have apart : label ≠ other := by
      rintro rfl
      exact unplaced.2 List.mem_cons_self
    have early : .run insn position at_ ∈ past := by simpa using among
    obtain ⟨frame, found, bounds⟩ := holds.carries early reachable targets unplaced.1
    refine ⟨frame, ?_, same ▸ bounds⟩
    -- Placing a label drops what was saved for it and for no other.
    have saved : (rewrite.placeLabel label).saved = rewrite.saved.erase label := by
      unfold placeLabel
      simp only
      split <;> rfl
    rw [saved, Std.TreeMap.getElem?_erase, if_neg (by rwa [Std.compare_eq_iff_eq])]
    exact found
  asked := by
    intro past rewrite label holds
    refine ⟨followed_recalls.asked label holds.recalls, holds.hierarchy, ?_⟩
    intro insn position at_ other among reachable targets unplaced
    simp only [List.filterMap_append, List.mem_append, not_or] at unplaced
    have early : .run insn position at_ ∈ past := by simpa using among
    exact holds.carries early reachable targets unplaced.1
  run := by
    intro past rewrite insn position holds
    have same : (rewrite.pass insn position).target.hierarchy = rewrite.target.hierarchy :=
      congrArg (·.2.2.1) (rewrite.places_pass insn position)
    have lawful' : rewrite.target.hierarchy.Lawful := holds.hierarchy ▸ lawful
    refine ⟨followed_recalls.run insn position holds.recalls, same.trans holds.hierarchy, ?_⟩
    intro other place at_ label among reachable targets unplaced
    simp only [List.filterMap_append, List.mem_append, not_or] at unplaced
    rcases List.mem_append.1 among with early | last
    · exact (holds.carries early reachable targets unplaced.1).pass insn position lawful'
    · cases List.mem_singleton.1 last
      exact saves_pass insn position lawful' (holds.recalls.unplaced label unplaced.1) reachable
        targets

/-! ## What is assumed -/

/-- Where a label is placed that is no handler, the locals that are assumed are a bound of those
that fall through to it and of those after every instruction that jumped to it. -/
def LabelsJoin (hierarchy : Hierarchy) (history : List Moment) : Prop :=
  ∀ early label before late, history = early ++ .placed label before :: late →
    before.isHandler label = false →
    (before.reachable = true →
      hierarchy.Bounds (before.placeLabel label).current.locals before.current.locals) ∧
    ∀ insn position at_, .run insn position at_ ∈ early → at_.reachable = true →
      label ∈ insn.targets →
      hierarchy.Bounds (before.placeLabel label).current.locals (at_.running insn position).locals

/-- The instruction of that number stands in the block as far as that is known. -/
def Covers (rewrite : MethodRewrite) (block : TryBlock) (number : Nat) : Prop :=
  ∃ first, rewrite.positions[block.start]? = some first ∧ first ≤ number ∧
    number < min ((rewrite.positions[block.stop]?).getD rewrite.snapshots.size)
      rewrite.snapshots.size

/-- The frame of a handler has locals that are a bound of those before every instruction so far
that is covered. -/
def HandlersJoin (hierarchy : Hierarchy) (history : List Moment) : Prop :=
  ∀ early moment late, history = early ++ moment :: late →
    ∀ handler, ∀ block ∈ moment.before.rangesOf handler,
    ∀ number locals, moment.before.Covers block number →
      (early.filterMap Moment.locals?)[number]? = some locals →
      hierarchy.Bounds (moment.before.handlerFrame handler).locals locals

/-- Whenever the start of a block is placed, its instructions so far are those with an offset
between the labels of the block in the code as it is assembled in the end. -/
def RangesMeasured (history : List Moment) (code : List Node) : Prop :=
  ∀ (pool after : ConstantPool) layout assembled, pool.Sound →
    code.foldlM Layout.add Layout.empty pool = (.ok layout, after) →
    assemble code pool = (.ok assembled, after) →
    ∀ early moment late, history = early ++ moment :: late →
    ∀ (block : TryBlock) start stop, (moment.before.positions[block.start]?).isSome →
      assembled.offsetOf block.start = .ok start → assembled.offsetOf block.stop = .ok stop →
      ∀ number < (early.filterMap Moment.locals?).length, ∀ offset,
        layout.offsets[number]? = some offset →
        (moment.before.Covers block number ↔ start ≤ offset ∧ offset < stop)

/-! ## It is safe -/

variable {hierarchy : Hierarchy} {early late : List Moment} {moment : Moment}

theorem Carries.label_joins {label : Label} {before : MethodRewrite}
    (lawful : hierarchy.Lawful) (holds : Carries hierarchy early before)
    (fresh : label ∉ early.filterMap Moment.label?) (plain : before.isHandler label = false) :
    (before.reachable = true →
      hierarchy.Bounds (before.placeLabel label).current.locals before.current.locals) ∧
    ∀ insn position at_, .run insn position at_ ∈ early → at_.reachable = true →
      label ∈ insn.targets →
      hierarchy.Bounds (before.placeLabel label).current.locals
        (at_.running insn position).locals := by
  have current {frame : Frame} (incoming : before.incoming label = some frame) :
      (before.placeLabel label).current = frame := by
    have arriving : before.arriving label = some frame := by
      rw [arriving, plain, if_neg Bool.false_ne_true, incoming]
    unfold placeLabel
    simp only [arriving]
    rfl
  constructor
  · intro reachable
    -- What flows in is joined with what was saved by the jumps before, if any.
    cases saved : before.saved[label]? with
    | none =>
      rw [current (by rw [incoming, reachable, saved])]
      exact .refl lawful _
    | some frame =>
      rw [current (by rw [incoming, reachable, saved]), holds.hierarchy]
      exact .left lawful _ _
  · intro insn position at_ among reached targets
    obtain ⟨frame, saved, bounds⟩ := holds.carries among reached targets fresh
    rw [holds.hierarchy] at bounds
    cases reachable : before.reachable with
    | false =>
      rw [current (by rw [incoming, reachable, saved])]
      exact bounds
    | true =>
      rw [current (by rw [incoming, reachable, saved]), holds.hierarchy]
      exact .trans lawful (.right lawful _ _) bounds

theorem Carries.handler_joins {before : MethodRewrite} (lawful : hierarchy.Lawful)
    (holds : Carries hierarchy early before) {handler : Label} {block : TryBlock}
    (among : block ∈ before.rangesOf handler) {number : Nat} {locals : List FrameType}
    (covers : before.Covers block number)
    (known : (early.filterMap Moment.locals?)[number]? = some locals) :
    hierarchy.Bounds (before.handlerFrame handler).locals locals := by
  obtain ⟨first, position, beyond, within⟩ := covers
  rw [← holds.recalls.snapshots, Array.getElem?_toList] at known
  have covered : locals ∈ before.covered block := by
    unfold MethodRewrite.covered
    rw [position]
    refine Array.mem_toList_iff.2 (Array.mem_extract_iff_getElem.2 ?_)
    obtain ⟨small, own⟩ := Array.getElem?_eq_some_iff.1 known
    have last : first + (number - first) = number := Nat.add_sub_cancel' beyond
    refine ⟨number - first, by omega, ?_⟩
    simp only [last]
    exact own
  have all : locals ∈ (before.rangesOf handler).flatMap before.covered :=
    List.mem_flatMap.2 ⟨block, among, covered⟩
  obtain ⟨bound, common, bounds⟩ := Hierarchy.Bounds.common lawful all
  unfold handlerFrame
  simp only [holds.hierarchy, common]
  exact bounds

/-! ## By number and by offset -/

/-- A label that is placed once is placed neither before nor after that. -/
theorem Moment.once {history early late : List Moment} {label : Label} {before : MethodRewrite}
    (once : (history.filterMap Moment.label?).Nodup)
    (split : history = early ++ .placed label before :: late) :
    label ∉ early.filterMap Moment.label? ∧ label ∉ late.filterMap Moment.label? := by
  rw [split, List.filterMap_append, List.filterMap_cons_some (by rfl)] at once
  obtain ⟨_, rest, apart⟩ := List.nodup_append.1 once
  exact ⟨fun among => apart label among label List.mem_cons_self rfl, (List.nodup_cons.1 rest).1⟩

/-- Where a label was placed. -/
theorem Moment.placed_split {history : List Moment} {label : Label}
    (among : label ∈ history.filterMap Moment.label?) :
    ∃ early before late, history = early ++ .placed label before :: late := by
  obtain ⟨moment, among, own⟩ := List.mem_filterMap.1 among
  obtain ⟨early, late, split⟩ := List.append_of_mem among
  cases moment with
  | placed other before =>
    cases own
    exact ⟨early, before, late, split⟩
  | asked | run => cases own

namespace Recalls

variable {first entries : Entries} {layout : Layout} {assembled : AssembledCode}
  {history : List Moment} {final before : MethodRewrite} {label : Label} {place offset : Nat}

/-- A label that has a number has the offset of the instruction with that number. -/
theorem offset_of_position (recalls : Recalls early before) (recalls' : Recalls history final)
    (assembles : layout.Assembles first entries final.body.code assembled)
    (once : (history.filterMap Moment.label?).Nodup) (split : history = early ++ moment :: late)
    (position : before.positions[label]? = some place)
    (known : assembled.offsetOf label = .ok offset) :
    (layout.offsets ++ [assembled.code.length])[place]? = some offset := by
  have among : label ∈ early.filterMap Moment.label? := by
    by_contra absent
    rw [recalls.unplaced label absent] at position
    cases position
  obtain ⟨first, at_, rest, own⟩ := Moment.placed_split among
  rw [own, List.append_assoc, List.cons_append] at split
  have last := (Moment.once once split).2
  obtain ⟨offset', known', found⟩ := recalls'.offset_of_label assembles split last
  rw [known] at known'
  cases known'
  simp only [List.filterMap_append, List.mem_append, not_or] at last
  rw [recalls.position first label at_ rest own last.1] at position
  cases position
  exact found

/-- A label that has no number yet comes behind all instructions so far. -/
theorem offset_of_unplaced (recalls : Recalls early before) (recalls' : Recalls history final)
    (assembles : layout.Assembles first entries final.body.code assembled)
    (once : (history.filterMap Moment.label?).Nodup) (split : history = early ++ moment :: late)
    (unplaced : before.positions[label]? = none)
    (known : assembled.offsetOf label = .ok offset) :
    ∃ place, (early.filterMap Moment.locals?).length ≤ place ∧
      (layout.offsets ++ [assembled.code.length])[place]? = some offset := by
  have absent : label ∉ early.filterMap Moment.label? := by
    intro among
    obtain ⟨first, at_, rest, own⟩ := Moment.placed_split among
    rw [own, List.append_assoc, List.cons_append] at split
    have last := (Moment.once once split).2
    simp only [List.filterMap_append, List.mem_append, not_or] at last
    rw [recalls.position first label at_ rest own last.1] at unplaced
    cases unplaced
  have among := recalls'.placed_of_offset assembles known
  rw [split, List.filterMap_append] at among
  obtain ⟨between, at_, rest, own⟩ :=
    Moment.placed_split ((List.mem_append.1 among).resolve_left absent)
  rw [own, ← List.append_assoc] at split
  obtain ⟨offset', known', found⟩ :=
    recalls'.offset_of_label assembles split (Moment.once once split).2
  rw [known] at known'
  cases known'
  refine ⟨_, ?_, found⟩
  rw [List.filterMap_append, List.length_append]
  exact Nat.le_add_right _ _

end Recalls

/-- Offsets are ordered as the numbers of instructions are. -/
theorem offset_lt_iff {first entries : Entries} {nodes : List Node} {layout : Layout}
    {assembled : AssembledCode} (assembles : layout.Assembles first entries nodes assembled)
    {i j offset offset' : Nat}
    (at_ : (layout.offsets ++ [assembled.code.length])[i]? = some offset)
    (at' : (layout.offsets ++ [assembled.code.length])[j]? = some offset') :
    offset < offset' ↔ i < j := by
  have rising := List.pairwise_iff_getElem.1 assembles.rising
  obtain ⟨small, rfl⟩ := List.getElem?_eq_some_iff.1 at_
  obtain ⟨small', rfl⟩ := List.getElem?_eq_some_iff.1 at'
  constructor
  · intro less
    by_contra most
    rcases Nat.eq_or_lt_of_le (Nat.not_lt.1 most) with rfl | above
    · exact Nat.lt_irrefl _ less
    · exact Nat.lt_asymm less (rising _ _ small' small above)
  · exact rising i j small small'

theorem ranges_measured {history : List Moment} {final : MethodRewrite}
    (recalls : Recalls history final)
    (always : ∀ early moment late, history = early ++ moment :: late →
      Recalls early moment.before)
    (once : (history.filterMap Moment.label?).Nodup) :
    RangesMeasured history final.body.code := by
  intro pool after layout assembled sound laid done early moment late split block start stop placed
    startAt stopAt number within offset at_
  have early_ := always early moment late split
  obtain ⟨layout', laid', assembles⟩ := assemble_eq_ok sound done
  rw [laid] at laid'
  cases laid'
  have here : (layout.offsets ++ [assembled.code.length])[number]? = some offset := by
    rw [List.getElem?_append_left (List.getElem?_eq_some_iff.1 at_).1]
    exact at_
  have size : moment.before.snapshots.size = (early.filterMap Moment.locals?).length := by
    rw [← early_.snapshots, Array.length_toList]
  obtain ⟨lowest, lowestAt⟩ := Option.isSome_iff_exists.1 placed
  -- Offsets rise with the instructions, so both ends are compared by number and not by place.
  have lower : start ≤ offset ↔ lowest ≤ number := by
    have above := offset_lt_iff assembles here
      (early_.offset_of_position recalls assembles once split lowestAt startAt)
    rw [← Nat.not_lt, above, Nat.not_lt]
  have upper : offset < stop ↔
      number < (moment.before.positions[block.stop]?).getD moment.before.snapshots.size := by
    cases highestAt : moment.before.positions[block.stop]? with
    | some highest =>
      exact offset_lt_iff assembles here
        (early_.offset_of_position recalls assembles once split highestAt stopAt)
    | none =>
      obtain ⟨place, beyond, found⟩ :=
        early_.offset_of_unplaced recalls assembles once split highestAt stopAt
      rw [offset_lt_iff assembles here found, Option.getD_none, size]
      omega
  rw [lower, upper, Covers, lowestAt]
  constructor
  · rintro ⟨first, same, above, below⟩
    cases same
    exact ⟨above, (Nat.lt_min.1 below).1⟩
  · rintro ⟨above, below⟩
    exact ⟨lowest, rfl, above, Nat.lt_min.2 ⟨below, size ▸ within⟩⟩

/-- **What the simulation assumes is safe to assume**, whatever is done to a method: at labels, in
handlers, and by number as by offset. -/
theorem locals_bounded (target : RewriteTarget) (method : MethodContext)
    (semilattice : target.hierarchy.Semilattice) (plain : target.hierarchy.Plain)
    (actions : List Action)
    (once : (((start target method).history actions).filterMap Moment.label?).Nodup) :
    LabelsJoin target.hierarchy ((start target method).history actions) ∧
    HandlersJoin target.hierarchy ((start target method).history actions) ∧
    RangesMeasured ((start target method).history actions)
      (actions.foldl act (start target method)).body.code := by
  have lawful : target.hierarchy.Lawful := (semilattice.joins plain).lawful
  have first : Carries target.hierarchy [] (start target method) :=
    ⟨recalls_start target method, rfl, fun among => nomatch among⟩
  have always {early late : List Moment} {moment : Moment}
      (split : (start target method).history actions = early ++ moment :: late) :
      Carries target.hierarchy early moment.before :=
    (followed_carries lawful).before first split
  refine ⟨?_, ?_, ?_⟩
  · intro early label before late split plain
    exact (always split).label_joins lawful (Moment.once once split).1 plain
  · intro early moment late split handler block among number locals covers known
    exact (always split).handler_joins lawful among covers known
  · have whole := (followed_carries lawful).after first actions
    exact ranges_measured whole.recalls (fun _ _ _ split => (always split).recalls) once

/-- One of two arguments is stored on each of two ways to a label. -/
def Sample.crossing : List Action :=
  [.own (.sizes 1 3), .own (.insn (.var Opcode.aload 0)), .own (.insn (.var Opcode.astore 2)),
    .own (.insn (.simple Opcode.iconst0)), .own (.insn (.jump Opcode.ifeq ⟨0⟩)),
    .own (.insn (.var Opcode.aload 1)), .own (.insn (.var Opcode.astore 2))]

/-- The ways meet. -/
def Sample.meeting : List Action := [.own (.label ⟨0⟩)]

def Sample.ordered (hierarchy : Hierarchy) : RewriteTarget :=
  .start "T" 52 (ConstantPool.ofEntries #[]) hierarchy Options.standard

def Sample.choosing : MethodContext := ⟨0, 8, "m", "(LA;LB;)V"⟩

def Sample.crossed (hierarchy : Hierarchy) : List Moment :=
  (start (ordered hierarchy) choosing).history (crossing ++ meeting)

/-- Two classes under one that is named like an array. -/
def Sample.bracketed : Hierarchy where
  commonSuperclass left right :=
    if left = right then left
    else if left ∈ ["A", "B", "["] ∧ right ∈ ["A", "B", "["] then "["
    else ClassName.object

theorem Sample.bracketed_semilattice : Sample.bracketed.Semilattice where
  same _ := if_pos rfl
  comm left right := by
    simp only [bracketed]
    split_ifs <;> simp_all
  assoc left middle right := by
    simp only [bracketed, ClassName.object]
    split_ifs <;> grind
  root name := by
    simp only [bracketed, ClassName.object]
    split_ifs <;> simp_all

theorem locals_bounded_crossing : (Sample.ordered .flat).hierarchy.Semilattice ∧
    (Sample.ordered .flat).hierarchy.Plain ∧
    ((Sample.crossed .flat).filterMap Moment.label?).Nodup ∧
    LabelsJoin (Sample.ordered .flat).hierarchy (Sample.crossed .flat) ∧
    HandlersJoin (Sample.ordered .flat).hierarchy (Sample.crossed .flat) ∧
    RangesMeasured (Sample.crossed .flat) ((Sample.crossing ++ Sample.meeting).foldl act
      (start (Sample.ordered .flat) Sample.choosing)).body.code := by
  have semilattice : Hierarchy.flat.Semilattice := by
    constructor
    all_goals
      intros
      simp only [Hierarchy.flat]
      split_ifs <;> simp_all
  have plain : Hierarchy.flat.Plain := by
    intro left right first _
    simp only [Hierarchy.flat]
    split
    · exact first
    · decide
  have once : ((Sample.crossed .flat).filterMap Moment.label?).Nodup := by decide +kernel
  exact ⟨semilattice, plain, once, locals_bounded (Sample.ordered .flat) Sample.choosing
    semilattice plain (Sample.crossing ++ Sample.meeting) once⟩

/-- Under a class that is named like an array the locals at a label are no bound: the merged type
counts as an array once it is merged again. -/
theorem bracketed_locals_unbounded :
    (Sample.ordered Sample.bracketed).hierarchy.Semilattice ∧
      ((Sample.crossed Sample.bracketed).filterMap Moment.label?).Nodup ∧
      ¬ LabelsJoin (Sample.ordered Sample.bracketed).hierarchy
        (Sample.crossed Sample.bracketed) := by
  refine ⟨Sample.bracketed_semilattice, by decide +kernel, fun joins => ?_⟩
  let before := Sample.crossing.foldl act (start (Sample.ordered Sample.bracketed) Sample.choosing)
  have split : Sample.crossed Sample.bracketed =
      (start (Sample.ordered Sample.bracketed) Sample.choosing).history Sample.crossing
        ++ .placed ⟨0⟩ before :: [] :=
    history_append Sample.crossing Sample.meeting _
  have plain : before.isHandler ⟨0⟩ = false := by decide +kernel
  have reachable : before.reachable = true := by decide +kernel
  have apart : ¬ Sample.bracketed.Bounds (before.placeLabel ⟨0⟩).current.locals
      before.current.locals := by decide +kernel
  exact apart ((joins _ ⟨0⟩ before [] split plain).1 reachable)

end MethodRewrite

end ClassWeave
