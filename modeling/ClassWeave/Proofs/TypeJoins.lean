/-
# ClassWeave.Proofs.TypeJoins -- where ways meet, the order does not matter

A type covers another one if it can stand for it: every type covers itself, `top` covers
all, an object covers `null`, and a class covers what is on the way down from it.  Two
types merge into the least one that covers both (`Hierarchy.Joins.covers_merge`), so what
a merge of many comes to is told by the types it covers, and these are the same in every
order and grouping (`Hierarchy.Joins.lawful`).

The hierarchy has to answer least common superclasses for that.  `Hierarchy.flat` does,
and so does the hierarchy of a cache, as long as superclass chains end, no superclass is an
interface or is named like an array, and the root class has no superclass (`Sources.joins`).
A superclass that is named like an array breaks it: merged on its own it counts as an array.
-/
import ClassWeave.Proofs.CacheHistory
import ClassWeave.Proofs.FrameForms

set_option autoImplicit false

namespace ClassWeave

/-! ## Hierarchies that answer least common superclasses -/

/-- `above left right` says that the class `right` can stand for the class `left`.  Of any two
classes the hierarchy answers the least that can stand for both, and only the root class can
stand for an array and something else. -/
structure Hierarchy.Joins (hierarchy : Hierarchy) (above : String → String → Prop) : Prop where
  refl : ∀ name, above name name
  antisymm : ∀ {left right}, above left right → above right left → left = right
  root : ∀ name, above name ClassName.object
  least : ∀ {left right}, isArray left = false → isArray right = false → left ≠ right →
    ∀ other, above (hierarchy.commonSuperclass left right) other ↔
      above left other ∧ above right other
  array : ∀ {left right}, isArray left = true → above left right →
    right = left ∨ right = ClassName.object
  arrayAbove : ∀ {left right}, isArray right = true → above left right → right = left

namespace FrameType

/-- The second type can stand for the first. -/
inductive Covered (above : String → String → Prop) : FrameType → FrameType → Prop
  | same (type : FrameType) : Covered above type type
  | top (type : FrameType) : Covered above type .top
  | null (name : String) : Covered above .null (.object name)
  | object {left right : String} (higher : above left right) :
      Covered above (.object left) (.object right)

def isReference : FrameType → Bool
  | null | object _ => true
  | _ => false

variable {above : String → String → Prop} {a b c : FrameType}

theorem covered_of_alone (alone : b.isReference = false) (covered : Covered above a b) :
    a = b ∨ b = .top := by
  cases covered with
  | same => exact .inl rfl
  | top => exact .inr rfl
  | null | object => cases alone

theorem of_alone_covered (alone : a.isReference = false) (covered : Covered above a b) :
    b = a ∨ b = .top := by
  cases covered with
  | same => exact .inl rfl
  | top => exact .inr rfl
  | null | object => cases alone

theorem covered_top_left (covered : Covered above .top a) : a = .top :=
  (of_alone_covered rfl covered).elim id id

theorem merge_self (hierarchy : Hierarchy) (type : FrameType) : merge hierarchy type type = type :=
  if_pos rfl

/-- Types that differ and are not both references have nothing in common. -/
theorem merge_of_alone (hierarchy : Hierarchy) (apart : a ≠ b)
    (alone : a.isReference = false ∨ b.isReference = false) : merge hierarchy a b = .top := by
  unfold merge
  rw [if_neg apart]
  split <;> simp_all [isReference]

end FrameType

namespace Hierarchy.Joins

open FrameType (Covered isReference)

variable {hierarchy : Hierarchy} {above : String → String → Prop}
  (joins : hierarchy.Joins above) {a b c : FrameType}

include joins

theorem covered_object {name : String} :
    Covered above (.object name) c ↔ c = .top ∨ ∃ other, c = .object other ∧ above name other := by
  constructor
  · intro covered
    cases covered with
    | same => exact .inr ⟨name, rfl, joins.refl name⟩
    | top => exact .inl rfl
    | object higher => exact .inr ⟨_, rfl, higher⟩
  · rintro (rfl | ⟨other, rfl, higher⟩)
    · exact .top _
    · exact .object higher

theorem covered_antisymm (covered : Covered above a b) (back : Covered above b a) : a = b := by
  cases covered with
  | same => rfl
  | top => exact FrameType.covered_top_left back
  | null => cases back
  | object higher =>
    cases back with
    | same => rfl
    | object back => rw [joins.antisymm higher back]

/-- What the same types can stand for is the same. -/
theorem eq_of_covered (same : ∀ c, Covered above a c ↔ Covered above b c) : a = b :=
  joins.covered_antisymm ((same b).2 (.same b)) ((same a).1 (.same a))

/-- The root class is all that can stand for an array and something else. -/
theorem root_least {left right : String} (apart : left ≠ right)
    (array : isArray left = true ∨ isArray right = true) (other : String) :
    above ClassName.object other ↔ above left other ∧ above right other := by
  constructor
  · intro higher
    obtain rfl := joins.antisymm higher (joins.root other)
    exact ⟨joins.root left, joins.root right⟩
  · rintro ⟨first, second⟩
    have root : other = ClassName.object := by
      rcases array with array | array
      · rcases joins.array array first with rfl | root
        · exact absurd (joins.arrayAbove array second) apart
        · exact root
      · rcases joins.array array second with rfl | root
        · exact absurd (joins.arrayAbove array first).symm apart
        · exact root
    rw [root]
    exact joins.refl _

/-- Two objects merge into an object of the least class that can stand for both. -/
theorem merge_objects {left right : String} (apart : left ≠ right) :
    ∃ name, FrameType.merge hierarchy (.object left) (.object right) = .object name ∧
      ∀ other, above name other ↔ above left other ∧ above right other := by
  have different : ¬ FrameType.object left = .object right := fun same =>
    apart (FrameType.object.inj same)
  unfold FrameType.merge
  rw [if_neg different]
  by_cases array : isArray left = true ∨ isArray right = true
  · refine ⟨ClassName.object, ?_, joins.root_least apart array⟩
    exact if_pos (by simpa using array)
  · obtain ⟨first, second⟩ := not_or.1 array
    refine ⟨hierarchy.commonSuperclass left right, ?_, ?_⟩
    · exact if_neg (by simpa using array)
    · exact joins.least (Bool.eq_false_iff.2 first) (Bool.eq_false_iff.2 second) apart

/-- **Two types merge into the least one that can stand for both.** -/
theorem covers_merge (a b c : FrameType) :
    Covered above (FrameType.merge hierarchy a b) c ↔ Covered above a c ∧ Covered above b c := by
  by_cases same : a = b
  · rw [same, FrameType.merge_self, and_self]
  by_cases alone : a.isReference = false ∨ b.isReference = false
  · rw [FrameType.merge_of_alone hierarchy same alone]
    constructor
    · intro covered
      obtain rfl := FrameType.covered_top_left covered
      exact ⟨.top a, .top b⟩
    · rintro ⟨first, second⟩
      have top : c = .top := by
        rcases alone with alone | alone
        · rcases FrameType.of_alone_covered alone first with rfl | top
          · exact (FrameType.covered_of_alone alone second).resolve_left fun back => same back.symm
          · exact top
        · rcases FrameType.of_alone_covered alone second with rfl | top
          · exact (FrameType.covered_of_alone alone first).resolve_left same
          · exact top
      rw [top]
      exact .top _
  -- Both are null or objects from here on, and null stands below every object.
  have null {name : String} (covered : Covered above (.object name) c) : Covered above .null c := by
    rcases joins.covered_object.1 covered with rfl | ⟨other, rfl, _⟩
    · exact .top _
    · exact .null other
  match a, b with
  | .null, .null => exact absurd rfl same
  | .null, .object name => exact ⟨fun covered => ⟨null covered, covered⟩, And.right⟩
  | .object name, .null => exact ⟨fun covered => ⟨covered, null covered⟩, And.left⟩
  | .object left, .object right =>
    have apart : left ≠ right := fun equal => same (congrArg FrameType.object equal)
    obtain ⟨name, merged, least⟩ := joins.merge_objects apart
    rw [merged, joins.covered_object, joins.covered_object, joins.covered_object]
    constructor
    · rintro (rfl | ⟨other, rfl, higher⟩)
      · exact ⟨.inl rfl, .inl rfl⟩
      · obtain ⟨first, second⟩ := (least other).1 higher
        exact ⟨.inr ⟨other, rfl, first⟩, .inr ⟨other, rfl, second⟩⟩
    · rintro ⟨rfl | ⟨other, rfl, first⟩, second⟩
      · exact .inl rfl
      · rcases second with top | ⟨_, own, second⟩
        · cases top
        · cases own
          exact .inr ⟨other, rfl, (least other).2 ⟨first, second⟩⟩
  | .top, _ | .int, _ | .float, _ | .long, _ | .double, _ | .uninitializedThis, _
  | .uninitialized _, _ => exact absurd (.inl rfl) alone
  | _, .top | _, .int | _, .float | _, .long | _, .double | _, .uninitializedThis
  | _, .uninitialized _ => exact absurd (.inr rfl) alone

end Hierarchy.Joins

/-! ## Orders and groupings -/

/-- In what order and grouping frames are merged. -/
inductive Grouping
  | one (frame : Frame)
  | both (left right : Grouping)

namespace Grouping

def members : Grouping → List Frame
  | one frame => [frame]
  | both left right => left.members ++ right.members

def merged (hierarchy : Hierarchy) : Grouping → Frame
  | one frame => frame
  | both left right => (left.merged hierarchy).merge hierarchy (right.merged hierarchy)

/-- Frames merged one after the other. -/
def inOrder (first : Frame) (rest : List Frame) : Grouping :=
  rest.foldl (fun grouping frame => both grouping (one frame)) (one first)

theorem members_inOrder (first : Frame) (rest : List Frame) :
    (inOrder first rest).members = first :: rest := by
  have fold (start : Grouping) :
      (rest.foldl (fun grouping frame => both grouping (one frame)) start).members =
        start.members ++ rest := by
    induction rest generalizing start with
    | nil => exact (List.append_nil _).symm
    | cons frame rest ih =>
      rw [List.foldl_cons, ih, members, members, List.append_assoc]
      rfl
  exact fold (one first)

theorem merged_inOrder (hierarchy : Hierarchy) (first : Frame) (rest : List Frame) :
    (inOrder first rest).merged hierarchy = rest.foldl (Frame.merge hierarchy) first := by
  have fold (start : Grouping) :
      (rest.foldl (fun grouping frame => both grouping (one frame)) start).merged hierarchy =
        rest.foldl (Frame.merge hierarchy) (start.merged hierarchy) := by
    induction rest generalizing start with
    | nil => rfl
    | cons frame rest ih => exact ih (both start (one frame))
  exact fold (one first)

end Grouping

/-- Merging is a join: of types, and of the locals of frames up to empty slots at the end. -/
structure Hierarchy.Lawful (hierarchy : Hierarchy) : Prop where
  idempotent : ∀ a, FrameType.merge hierarchy a a = a
  commutative : ∀ a b, FrameType.merge hierarchy a b = FrameType.merge hierarchy b a
  associative : ∀ a b c, FrameType.merge hierarchy (FrameType.merge hierarchy a b) c =
    FrameType.merge hierarchy a (FrameType.merge hierarchy b c)
  absorbing : ∀ a, FrameType.merge hierarchy .top a = .top ∧ FrameType.merge hierarchy a .top = .top
  /-- The locals depend on which frames are merged, not on how. -/
  regrouped : ∀ grouping grouping' : Grouping,
    (∀ frame, frame ∈ grouping.members ↔ frame ∈ grouping'.members) →
    trimTop (grouping.merged hierarchy).locals = trimTop (grouping'.merged hierarchy).locals
  /-- Merging one frame after the other comes to what any grouping of them comes to. -/
  folded : ∀ (first : Frame) (rest : List Frame) (grouping : Grouping),
    (∀ frame, frame ∈ first :: rest ↔ frame ∈ grouping.members) →
    trimTop (rest.foldl (Frame.merge hierarchy) first).locals =
      trimTop (grouping.merged hierarchy).locals
  /-- A frame that was merged already adds nothing. -/
  absorbed : ∀ (grouping : Grouping), ∀ frame ∈ grouping.members,
    trimTop ((grouping.merged hierarchy).merge hierarchy frame).locals =
      trimTop (grouping.merged hierarchy).locals
  settled : ∀ (left right : Grouping), ∀ frame ∈ (Grouping.both left right).members,
    (((Grouping.both left right).merged hierarchy).merge hierarchy frame).locals =
      ((Grouping.both left right).merged hierarchy).locals

namespace Hierarchy.Joins

open FrameType (Covered)

variable {hierarchy : Hierarchy} {above : String → String → Prop} (joins : hierarchy.Joins above)

include joins

/-- What can stand for a slot of merged frames is what can stand for it in each of them. -/
theorem covers_merged (i : Nat) (type : FrameType) : ∀ grouping : Grouping,
    Covered above (slotAt (grouping.merged hierarchy).locals i) type ↔
      ∀ frame ∈ grouping.members, Covered above (slotAt frame.locals i) type
  | .one frame => by simp [Grouping.members, Grouping.merged]
  | .both left right => by
    have slot : slotAt ((Grouping.both left right).merged hierarchy).locals i =
        FrameType.merge hierarchy (slotAt (left.merged hierarchy).locals i)
          (slotAt (right.merged hierarchy).locals i) :=
      Frame.slotAt_mergeLocals_eq hierarchy _ _ i
    rw [slot, joins.covers_merge, covers_merged i type left, covers_merged i type right,
      Grouping.members]
    exact List.forall_mem_append.symm

theorem regrouped (grouping grouping' : Grouping)
    (same : ∀ frame, frame ∈ grouping.members ↔ frame ∈ grouping'.members) :
    trimTop (grouping.merged hierarchy).locals = trimTop (grouping'.merged hierarchy).locals := by
  refine trimTop_congr fun i => joins.eq_of_covered fun type => ?_
  rw [joins.covers_merged, joins.covers_merged]
  exact forall_congr' fun frame => imp_congr_left (same frame)

theorem absorbed {grouping : Grouping} {frame : Frame} (among : frame ∈ grouping.members) :
    trimTop ((grouping.merged hierarchy).merge hierarchy frame).locals =
      trimTop (grouping.merged hierarchy).locals := by
  refine joins.regrouped (.both grouping (.one frame)) grouping fun other => ?_
  simp only [Grouping.members, List.mem_append, List.mem_singleton, or_iff_left_iff_imp]
  rintro rfl
  exact among

theorem lawful : hierarchy.Lawful where
  idempotent := FrameType.merge_self hierarchy
  commutative a b := joins.eq_of_covered fun c => by
    rw [joins.covers_merge, joins.covers_merge, and_comm]
  associative a b c := joins.eq_of_covered fun d => by
    rw [joins.covers_merge, joins.covers_merge, joins.covers_merge, joins.covers_merge, and_assoc]
  absorbing a := ⟨FrameType.merge_top_left hierarchy a, FrameType.merge_top_right hierarchy a⟩
  regrouped := joins.regrouped
  folded first rest grouping same := by
    rw [← Grouping.merged_inOrder]
    exact joins.regrouped _ _ fun frame => by rw [Grouping.members_inOrder, same]
  absorbed _ _ among := joins.absorbed among
  settled left right frame among := by
    have same := joins.absorbed among
    have trimmed (a b : Frame) :
        trimTop (a.merge hierarchy b).locals = (a.merge hierarchy b).locals := trimTop_trimTop _
    rwa [trimmed, Grouping.merged, trimmed] at same

end Hierarchy.Joins

/-! ## The flat hierarchy -/

theorem Hierarchy.flat_joins :
    flat.Joins fun left right => right = left ∨ right = ClassName.object where
  refl _ := .inl rfl
  antisymm := by
    rintro left right (same | root) (same' | root')
    · exact same.symm
    · exact same.symm
    · exact same'
    · rw [root, root']
  root _ := .inr rfl
  least _ _ apart other := by
    have root : flat.commonSuperclass _ _ = ClassName.object := if_neg apart
    rw [root, or_self]
    constructor
    · intro root
      exact ⟨.inr root, .inr root⟩
    · rintro ⟨rfl | root, same | root'⟩
      · exact absurd same apart
      · exact root'
      · exact root
      · exact root
  array _ higher := higher
  arrayAbove := by
    rintro left right array (same | rfl)
    · exact same
    · cases array

/-! ## The hierarchy of a cache -/

namespace Sources

/-- A class that is no interface and all its superclasses, nearest first. -/
def Ascends (sources : Sources) (name : String) (names : List String) : Prop :=
  ∃ info above, sources.answer name = .ok info ∧ info.isInterface = false ∧
    sources.Climbs info.superName above ∧ names = name :: above

/-- The first class on the way up from the right that is also on the way up from the left, or the
root class if there is none or a way is not known. -/
inductive Common (sources : Sources) (left right : String) : String → Prop
  | met {lefts rights : List String} (first : sources.Ascends left lefts)
      (second : sources.Ascends right rights) :
      Common sources left right ((rights.find? lefts.contains).getD ClassName.object)
  | unknown (lost : ∀ lefts rights, sources.Ascends left lefts → ¬ sources.Ascends right rights) :
      Common sources left right ClassName.object

variable {forest : Forest} {bootstrap : Option ClassTable} {sources : Sources} {name : String}
  {names : List String}

theorem Ascends.answer_ne {cause : ResolveError} (ascends : sources.Ascends name names) :
    sources.answer name ≠ .error cause := by
  obtain ⟨info, _, answer, _⟩ := ascends
  rw [answer]
  exact nofun

theorem Ascends.not_interface {info : ClassInfo} (ascends : sources.Ascends name names)
    (answer : sources.answer name = .ok info) : info.isInterface = false := by
  obtain ⟨own, _, answer', plain, _⟩ := ascends
  rw [answer] at answer'
  cases answer'
  exact plain

section Telling

variable (resolves : ∀ name, Tells forest bootstrap (sources.resolve name) fun outcome =>
  outcome.map CachedClass.info = sources.answer name)

include resolves

theorem superclasses_ascends {info : ClassInfo} (answer : sources.answer name = .ok info)
    (plain : info.isInterface = false) : Tells forest bootstrap (sources.superclasses name)
      fun outcome => ∀ names, outcome = some names ↔ sources.Ascends name names := by
  refine (superclasses_tells resolves name).mono fun outcome told names => (told names).trans ?_
  constructor
  · rintro ⟨own, above, answer', climbs, same⟩
    rw [answer] at answer'
    cases answer'
    exact ⟨info, above, answer, plain, climbs, same⟩
  · rintro ⟨own, above, answer', _, climbs, same⟩
    exact ⟨own, above, answer', climbs, same⟩

theorem commonSuperclass_tells {left right : String} (apart : left ≠ right) :
    Tells forest bootstrap (sources.commonSuperclass left right) (sources.Common left right) := by
  unfold commonSuperclass
  rw [if_neg apart]
  refine (resolves left).bind fun leftClass leftAnswer => ?_
  cases leftClass with
  | error cause =>
    exact Tells.pure (.unknown fun _ _ first _ => first.answer_ne leftAnswer.symm)
  | ok leftClass =>
    refine (resolves right).bind fun rightClass rightAnswer => ?_
    cases rightClass with
    | error cause =>
      exact Tells.pure (.unknown fun _ _ _ second => second.answer_ne rightAnswer.symm)
    | ok rightClass =>
      -- Both were resolved; an interface among them has no way up.
      simp only
      split
      · rename_i interface
        refine Tells.pure (.unknown fun _ _ first second => ?_)
        rw [first.not_interface leftAnswer.symm, second.not_interface rightAnswer.symm] at interface
        cases interface
      · rename_i plain
        obtain ⟨leftPlain, rightPlain⟩ : leftClass.info.isInterface = false ∧
            rightClass.info.isInterface = false := by simpa using plain
        refine (superclasses_ascends resolves leftAnswer.symm leftPlain).bind
          fun leftNames lefts => ?_
        cases leftNames with
        | none => exact Tells.pure (.unknown fun names _ first _ => nomatch (lefts names).2 first)
        | some leftNames =>
          refine (superclasses_ascends resolves rightAnswer.symm rightPlain).bind
            fun rightNames rights => ?_
          cases rightNames with
          | none =>
            exact Tells.pure (.unknown fun _ names _ second => nomatch (rights names).2 second)
          | some rightNames => exact Tells.pure (.met ((lefts _).1 rfl) ((rights _).1 rfl))

end Telling

/-! ### Contents in which the answers are least -/

/-- The second class is named as superclass by the first. -/
def Below (sources : Sources) (lower upper : String) : Prop :=
  ∃ info, sources.answer lower = .ok info ∧ info.superName = some upper

/-- No way up goes on for ever. -/
def Grounded (sources : Sources) : Prop :=
  WellFounded fun upper lower => sources.Below lower upper

/-- The contents are those of a class hierarchy: no way up goes on for ever, the root class has no
superclass, and no superclass is an interface. -/
structure Orderly (sources : Sources) : Prop where
  grounded : sources.Grounded
  root : ∀ {info}, sources.answer ClassName.object = .ok info → info.superName = none
  plain : ∀ {name info superName superInfo}, sources.answer name = .ok info →
    info.superName = some superName → sources.answer superName = .ok superInfo →
    superInfo.isInterface = false

/-- No class has a superclass that is named like an array. -/
def ArrayFree (sources : Sources) : Prop :=
  ∀ {name info superName superInfo}, sources.answer name = .ok info →
    info.superName = some superName → sources.answer superName = .ok superInfo →
    isArray superName = false

/-- The second class can stand for the first: it is the same, or the root class, or on the way up
from the first, if that is no array. -/
def Above (sources : Sources) (left right : String) : Prop :=
  right = left ∨ right = ClassName.object ∨
    isArray left = false ∧ ∃ names, sources.Ascends left names ∧ right ∈ names

/-- Whatever is met on the way up is the superclass of some class. -/
theorem Climbs.superclass {start : Option String} (climbs : sources.Climbs start names)
    {info : ClassInfo} (answer : sources.answer name = .ok info) (above : info.superName = start)
    {met : String} (among : met ∈ names) :
    ∃ lower lowerInfo, sources.answer lower = .ok lowerInfo ∧ lowerInfo.superName = some met := by
  induction climbs generalizing name info with
  | top => cases among
  | step next goesOn ih =>
    rcases List.mem_cons.1 among with rfl | among
    · exact ⟨name, info, answer, above⟩
    · exact ih next rfl among
  | root =>
    obtain rfl := List.mem_singleton.1 among
    exact ⟨name, info, answer, above⟩

namespace Ascends

theorem unique {names' : List String} (ascends : sources.Ascends name names)
    (ascends' : sources.Ascends name names') : names = names' := by
  obtain ⟨info, above, answer, _, climbs, rfl⟩ := ascends
  obtain ⟨info', above', answer', _, climbs', rfl⟩ := ascends'
  rw [answer] at answer'
  cases answer'
  rw [climbs.unique climbs']

theorem climbs (ascends : sources.Ascends name names) : sources.Climbs (some name) names := by
  obtain ⟨info, above, answer, _, climbs, rfl⟩ := ascends
  exact .step answer climbs

theorem nodup (ascends : sources.Ascends name names) : names.Nodup := ascends.climbs.nodup

/-- Two ways that meet go on together. -/
theorem rest_unique {met name' : String} {before before' after after' : List String}
    (ascends : sources.Ascends name (before ++ met :: after))
    (ascends' : sources.Ascends name' (before' ++ met :: after')) : after = after' :=
  (List.cons.inj (ascends.climbs.suffix.unique ascends'.climbs.suffix)).2

/-- The first class that both ways have starts all that they have in common. -/
theorem mem_both_iff {left right met : String} {lefts rights : List String}
    (first : sources.Ascends left lefts) (second : sources.Ascends right rights)
    {before after : List String} (split : rights = before ++ met :: after) (shared : met ∈ lefts)
    (apart : ∀ name ∈ before, name ∉ lefts) (other : String) :
    other ∈ met :: after ↔ other ∈ lefts ∧ other ∈ rights := by
  obtain ⟨before', after', rfl⟩ := List.append_of_mem shared
  rw [split] at second ⊢
  obtain rfl := first.rest_unique second
  constructor
  · intro among
    exact ⟨List.mem_append_right _ among, List.mem_append_right _ among⟩
  · rintro ⟨inLeft, inRight⟩
    exact (List.mem_append.1 inRight).resolve_left fun early => apart other early inLeft

/-- From a class on the way the same way goes up, and a class where it does not is the root class
that is not to be had. -/
theorem suffix (orderly : sources.Orderly) {before after : List String} {met : String}
    (ascends : sources.Ascends name (before ++ met :: after)) :
    sources.Ascends met (met :: after) ∨ met = ClassName.object ∧ after = [] := by
  obtain ⟨info, above, answer, plain, climbs, same⟩ := ascends
  cases before with
  | nil =>
    cases same
    exact .inl ⟨info, _, answer, plain, climbs, rfl⟩
  | cons first before =>
    cases same
    cases climbs.suffix with
    | @step _ metInfo _ metAnswer goesOn =>
      obtain ⟨lower, lowerInfo, lowerAnswer, higher⟩ :=
        climbs.superclass answer rfl (List.mem_append_right before List.mem_cons_self)
      have metPlain := orderly.plain lowerAnswer higher metAnswer
      exact .inl ⟨metInfo, _, metAnswer, metPlain, goesOn, rfl⟩
    | root => exact .inr ⟨rfl, rfl⟩

/-- The root class has nothing above it. -/
theorem of_root (orderly : sources.Orderly) (ascends : sources.Ascends ClassName.object names) :
    names = [ClassName.object] := by
  obtain ⟨info, above, answer, _, climbs, rfl⟩ := ascends
  rw [orderly.root answer] at climbs
  cases climbs
  rfl

/-- No class on the way up from another one is named like an array. -/
theorem arrayFree (free : sources.ArrayFree) (ascends : sources.Ascends name names) {met : String}
    (among : met ∈ names) (array : isArray met = true) : met = name := by
  obtain ⟨info, above, answer, _, climbs, rfl⟩ := ascends
  refine (List.mem_cons.1 among).resolve_right fun higher => ?_
  obtain ⟨lower, lowerInfo, lowerAnswer, superclass⟩ := climbs.superclass answer rfl higher
  obtain ⟨before, after, rfl⟩ := List.append_of_mem higher
  cases climbs.suffix with
  | step metAnswer _ =>
    rw [free lowerAnswer superclass metAnswer] at array
    cases array
  | root => cases array

end Ascends

section Joins

variable (orderly : sources.Orderly)

include orderly

theorem above_root {other : String} (above : sources.Above ClassName.object other) :
    other = ClassName.object := by
  rcases above with same | root | ⟨_, names, ascends, among⟩
  · exact same
  · exact root
  · rw [ascends.of_root orderly] at among
    exact List.mem_singleton.1 among

/-- What stands for a class on the way up stands on the rest of the way. -/
theorem above_of_met {before after : List String} {met other : String}
    (ascends : sources.Ascends name (before ++ met :: after)) (plain : isArray met = false) :
    sources.Above met other ↔ other = ClassName.object ∨ other ∈ met :: after := by
  rcases ascends.suffix orderly with onwards | ⟨rfl, rfl⟩
  · constructor
    · rintro (rfl | root | ⟨_, names, ascends', among⟩)
      · exact .inr List.mem_cons_self
      · exact .inl root
      · rw [onwards.unique ascends']
        exact .inr among
    · rintro (root | among)
      · exact .inr (.inl root)
      · exact .inr (.inr ⟨plain, _, onwards, among⟩)
  · constructor
    · intro above
      exact .inl (above_root orderly above)
    · rintro (root | among)
      · exact .inl root
      · exact .inl (List.mem_singleton.1 among)

theorem above_iff (ascends : sources.Ascends name names) (plain : isArray name = false)
    {other : String} : sources.Above name other ↔ other = ClassName.object ∨ other ∈ names := by
  obtain ⟨_, above, _, _, _, rfl⟩ := id ascends
  exact @above_of_met sources _ orderly [] above name other ascends plain

theorem above_antisymm (free : sources.ArrayFree) {left right : String}
    (above : sources.Above left right) (back : sources.Above right left) : left = right := by
  rcases above with rfl | rfl | ⟨plain, names, ascends, among⟩
  · rfl
  · exact above_root orderly back
  · obtain ⟨before, after, rfl⟩ := List.append_of_mem among
    by_cases same : right = left
    · exact same.symm
    have plain' : isArray right = false :=
      Bool.eq_false_iff.2 fun array => same (ascends.arrayFree free among array)
    rcases (above_of_met orderly ascends plain').1 back with rfl | behind
    · rw [ascends.of_root orderly] at among
      exact (List.mem_singleton.1 among).symm
    · -- The way starts at the left class, and would come back to it.
      cases before with
      | nil =>
        obtain ⟨_, _, _, _, _, whole⟩ := ascends
        exact (List.cons.inj whole).1.symm
      | cons lowest before =>
        have once := ascends.nodup
        obtain ⟨_, _, _, _, _, whole⟩ := ascends
        obtain rfl := (List.cons.inj whole).1
        exact absurd (List.mem_append_right before behind) (List.nodup_cons.1 once).1

/-- Without a way up from one of two classes only the root class can stand for both. -/
theorem above_unknown {left right other : String} (apart : left ≠ right)
    (lost : ∀ lefts rights, sources.Ascends left lefts → ¬ sources.Ascends right rights)
    (first : sources.Above left other) (second : sources.Above right other) :
    other = ClassName.object := by
  -- A class on the way up from another one has a way up itself, but for the root class.
  have onwards {name met : String} {names : List String} (ascends : sources.Ascends name names)
      (among : met ∈ names) : (∃ names, sources.Ascends met names) ∨ met = ClassName.object := by
    obtain ⟨before, after, rfl⟩ := List.append_of_mem among
    exact (ascends.suffix orderly).imp (fun way => ⟨_, way⟩) And.left
  rcases first with rfl | root | ⟨_, lefts, ascends, among⟩
  · rcases second with same | root | ⟨_, rights, ascends', among'⟩
    · exact absurd same apart
    · exact root
    · refine (onwards ascends' among').resolve_left ?_
      rintro ⟨lefts, ascends⟩
      exact lost lefts rights ascends ascends'
  · exact root
  · rcases second with rfl | root | ⟨_, rights, ascends', _⟩
    · refine (onwards ascends among).resolve_left ?_
      rintro ⟨rights, ascends'⟩
      exact lost lefts rights ascends ascends'
    · exact root
    · exact absurd ascends' (lost lefts rights ascends)

/-- The answer is the least class that can stand for both. -/
theorem Common.least (free : sources.ArrayFree) {left right answer : String}
    (common : sources.Common left right answer) (leftPlain : isArray left = false)
    (rightPlain : isArray right = false) (apart : left ≠ right) (other : String) :
    sources.Above answer other ↔ sources.Above left other ∧ sources.Above right other := by
  cases common with
  | @met lefts rights first second =>
    rw [above_iff orderly first leftPlain, above_iff orderly second rightPlain, ← or_and_left]
    cases found : rights.find? lefts.contains with
    | none =>
      have nothing : ¬ (other ∈ lefts ∧ other ∈ rights) := by
        rintro ⟨inLeft, inRight⟩
        simpa [inLeft] using List.find?_eq_none.1 found other inRight
      rw [or_iff_left nothing]
      exact ⟨above_root orderly, fun root => .inl root⟩
    | some met =>
      obtain ⟨shared, before, after, split, apart⟩ := List.find?_eq_some_iff_append.1 found
      have shared : met ∈ lefts := by simpa using shared
      have apart : ∀ name ∈ before, name ∉ lefts := by simpa using apart
      have plain : isArray met = false := by
        refine Bool.eq_false_iff.2 fun array => ?_
        rw [first.arrayFree free shared array, leftPlain] at array
        cases array
      -- From the first class that both ways share they go on as one.
      rw [← first.mem_both_iff second split shared apart]
      rw [split] at second
      exact above_of_met orderly second plain
  | unknown lost =>
    constructor
    · intro above
      have root := above_root orderly above
      exact ⟨.inr (.inl root), .inr (.inl root)⟩
    · rintro ⟨first, second⟩
      exact .inr (.inl (above_unknown orderly apart lost first second))

theorem joins (free : sources.ArrayFree) {hierarchy : Hierarchy}
    (common : ∀ {left right}, left ≠ right →
      sources.Common left right (hierarchy.commonSuperclass left right)) :
    hierarchy.Joins sources.Above where
  refl _ := .inl rfl
  antisymm := above_antisymm orderly free
  root _ := .inr (.inl rfl)
  least leftPlain rightPlain apart := (common apart).least orderly free leftPlain rightPlain apart
  array := by
    rintro left right array (same | root | ⟨plain, _⟩)
    · exact .inl same
    · exact .inr root
    · rw [plain] at array
      cases array
  arrayAbove := by
    rintro left right array (same | rfl | ⟨_, names, ascends, among⟩)
    · exact same
    · cases array
    · exact ascends.arrayFree free among array

end Joins

end Sources

/-- **Merging is a join in every order and grouping**, for the flat hierarchy and for the one that a
cache knows of orderly contents, whatever the cache was used for before. -/
theorem merge_lawful {forest : Forest} (rooted : forest.Rooted) (apart : forest.Apart)
    (bootstrap : Option ClassTable) (number : Option Nat) (history : List ClassCache.Call)
    (orderly : (forest.sources bootstrap number).Orderly)
    (free : (forest.sources bootstrap number).ArrayFree) :
    Hierarchy.flat.Lawful ∧
      ((forest.sources bootstrap number).hierarchy
        (ClassCache.run forest bootstrap history ClassCache.empty)).Lawful := by
  refine ⟨Hierarchy.flat_joins.lawful, ?_⟩
  have sound : (ClassCache.run forest bootstrap history ClassCache.empty).Sound forest bootstrap :=
    ClassCache.run_sound rooted apart history ClassCache.empty_sound
  refine (Sources.joins orderly free ?_).lawful
  intro left right different
  exact (Sources.commonSuperclass_tells (Sources.resolve_tells rooted apart number) different _
    sound).1

/-- A class without members, and its superclass. -/
def Sample.below (name top : UInt8) : Bytes :=
  [0xCA, 0xFE, 0xBA, 0xBE, 0, 0, 0, 52, 0, 5, 1, 0, 1, name, 7, 0, 1, 1, 0, 1, top, 7, 0, 3, 0, 33,
    0, 2, 0, 4, 0, 0, 0, 0, 0, 0, 0, 0]

/-- A class without members and superclass. -/
def Sample.alone (name : UInt8) : Bytes :=
  [0xCA, 0xFE, 0xBA, 0xBE, 0, 0, 0, 52, 0, 3, 1, 0, 1, name, 7, 0, 1, 0, 33, 0, 2, 0, 0, 0, 0, 0, 0,
    0, 0, 0, 0]

/-- Two classes `A` and `B` with a superclass of the given name. -/
def Sample.twins (top : Char) : ClassTable :=
  (((∅ : ClassTable).insert "A" (below 65 top.toUInt8)).insert "B" (below 66 top.toUInt8)).insert
    (String.singleton top) (alone top.toUInt8)

def Sample.seen (top : Char) : Sources := Forest.empty.sources (some (twins top)) none

theorem Sample.seen_answer {top : Char} (among : top = 'C' ∨ top = '[') {name : String}
    {info : ClassInfo} (answer : (seen top).answer name = .ok info) :
    info.isInterface = false ∧ (info.superName = none ∨
      slashed name ≠ ClassName.object ∧ info.superName = some (String.singleton top)) := by
  obtain ⟨bytes, found, read⟩ : ∃ bytes, (twins top)[slashed name]? = some bytes ∧
      ClassInfo.ofBytes bytes none = .ok info := by
    unfold Sources.answer at answer
    cases found : (twins top)[slashed name]? with
    | none =>
      have nowhere : (seen top).locate (ClassName.ofString name) = none := by
        simp [Sources.locate, seen, Forest.sources, ClassName.ofString, found, Sources.locateIn]
      rw [nowhere] at answer
      cases answer
    | some bytes =>
      have located : (seen top).locate (ClassName.ofString name) = some (none, bytes) := by
        simp [Sources.locate, seen, Forest.sources, ClassName.ofString, found]
      rw [located] at answer
      refine ⟨bytes, rfl, ?_⟩
      cases read : ClassInfo.ofBytes bytes none with
      | error cause => simp [read] at answer
      | ok own => simpa [read] using answer
  have first : ClassInfo.ofBytes (below 65 top.toUInt8) none =
      .ok ⟨⟨"A"⟩, some (String.singleton top), [], false, [], [], none⟩ := by
    rcases among with rfl | rfl <;> decide +kernel
  have second : ClassInfo.ofBytes (below 66 top.toUInt8) none =
      .ok ⟨⟨"B"⟩, some (String.singleton top), [], false, [], [], none⟩ := by
    rcases among with rfl | rfl <;> decide +kernel
  have third : ClassInfo.ofBytes (alone top.toUInt8) none =
      .ok ⟨⟨String.singleton top⟩, none, [], false, [], [], none⟩ := by
    rcases among with rfl | rfl <;> decide +kernel
  simp only [twins, Std.TreeMap.getElem?_insert] at found
  split at found
  · cases found
    rw [third] at read
    cases read
    exact ⟨rfl, .inl rfl⟩
  split at found
  · rename_i own
    cases found
    rw [second] at read
    cases read
    have same := Std.LawfulEqOrd.eq_of_compare own
    exact ⟨rfl, .inr ⟨same ▸ by decide, rfl⟩⟩
  split at found
  · rename_i own
    cases found
    rw [first] at read
    cases read
    have same := Std.LawfulEqOrd.eq_of_compare own
    exact ⟨rfl, .inr ⟨same ▸ by decide, rfl⟩⟩
  · simp at found

theorem Sample.seen_grounded {top : Char} (among : top = 'C' ∨ top = '[') :
    (seen top).Grounded := by
  have alone : (seen top).answer (String.singleton top) =
      .ok ⟨⟨String.singleton top⟩, none, [], false, [], [], none⟩ := by
    rcases among with rfl | rfl <;> decide +kernel
  have atTop : Acc (fun upper lower => (seen top).Below lower upper) (String.singleton top) := by
    refine .intro _ fun upper below => ?_
    obtain ⟨info, answer, above⟩ := below
    rw [alone] at answer
    cases answer
    cases above
  refine ⟨fun name => .intro _ fun upper below => ?_⟩
  obtain ⟨info, answer, above⟩ := below
  rcases (seen_answer among answer).2 with none_ | ⟨_, own⟩
  · rw [none_] at above
    cases above
  · rw [own] at above
    cases above
    exact atTop

theorem Sample.seen_orderly {top : Char} (among : top = 'C' ∨ top = '[') :
    (seen top).Orderly where
  grounded := seen_grounded among
  root answer := by
    rcases (seen_answer among answer).2 with none_ | ⟨other, _⟩
    · exact none_
    · exact absurd (by decide +kernel) other
  plain _ _ answer := (seen_answer among answer).1

/-- Two classes with a common superclass. -/
theorem merge_lawful_twins :
    Forest.empty.Rooted ∧ Forest.empty.Apart ∧ (Sample.seen 'C').Orderly ∧
      (Sample.seen 'C').ArrayFree ∧
      FrameType.merge ((Sample.seen 'C').hierarchy ClassCache.empty) (.object "A") (.object "B") =
        .object "C" ∧
      Hierarchy.flat.Lawful ∧ ((Sample.seen 'C').hierarchy ClassCache.empty).Lawful := by
  have orderly := Sample.seen_orderly (.inl rfl)
  have free : (Sample.seen 'C').ArrayFree := by
    intro name info superName superInfo answer higher _
    rcases (Sample.seen_answer (.inl rfl) answer).2 with none_ | ⟨_, own⟩
    · rw [none_] at higher
      cases higher
    · rw [own] at higher
      cases higher
      decide
  exact ⟨Forest.rooted_empty, Forest.apart_empty, orderly, free, by decide +kernel,
    merge_lawful Forest.rooted_empty Forest.apart_empty _ none [] orderly free⟩

/-- A superclass that is named like an array is merged in two ways, so the grouping matters. -/
theorem array_superclass_regroups :
    let sources := Sample.seen '['
    let merge := FrameType.merge (sources.hierarchy ClassCache.empty)
    sources.Orderly ∧
      merge (merge (.object "A") (.object "B")) (.object "B") = .object ClassName.object ∧
      merge (.object "A") (merge (.object "B") (.object "B")) = .object "[" := by
  intro sources merge
  exact ⟨Sample.seen_orderly (.inr rfl), by decide +kernel, by decide +kernel⟩

end ClassWeave
