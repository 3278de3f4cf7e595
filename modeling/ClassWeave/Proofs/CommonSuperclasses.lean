/-
# ClassWeave.Proofs.CommonSuperclasses -- the least superclass that two classes share

A name on the way up decides all that comes behind it, so two ways that meet go on
together.  The first class of one way that lies on the other is therefore the same from
whichever side it is looked for (`Sources.Ascends.find?_comm`), and what else both ways
have is above it (`Sources.Ascends.transGen_below`).  Nothing is asked of the contents for
that: a superclass may be an interface, and the root class may have superclasses.

A class has a way up unless it is `Stranded`: it is not to be had, or is an interface, or a
class above it is not to be had.  That is all that can keep a way from ending, as long as no
way goes on for ever (`Sources.Grounded`).
-/
import ClassWeave.Proofs.TypeJoins
import Mathlib.Data.List.Nodup
import Mathlib.Logic.Relation

set_option autoImplicit false

namespace ClassWeave

namespace Sources

variable {sources : Sources} {name left right : String} {names lefts rights : List String}

/-! ## Superclasses -/

/-- A class is met, from a name on upwards, that is not to be had and is not the root class. -/
inductive Lost (sources : Sources) : String → Prop
  | here {name : String} {cause : ResolveError} (other : name ≠ ClassName.object)
      (answer : sources.answer name = .error cause) : Lost sources name
  | above {lower upper : String} (below : sources.Below lower upper) (lost : Lost sources upper) :
      Lost sources lower

/-- Why a class has no superclasses to be compared: it is not to be had, or is an interface, or the
way up from it is lost. -/
inductive Stranded (sources : Sources) (name : String) : Prop
  | missing {cause : ResolveError} (answer : sources.answer name = .error cause)
  | interface {info : ClassInfo} (answer : sources.answer name = .ok info)
      (declared : info.isInterface = true)
  | lost {upper : String} (below : sources.Below name upper) (lost : sources.Lost upper)

/-! ## Ways that meet -/

theorem Climbs.transGen_below {start : Option String} (climbs : sources.Climbs start names)
    {lower : String} {info : ClassInfo} (answer : sources.answer lower = .ok info)
    (above : info.superName = start) {other : String} (among : other ∈ names) :
    Relation.TransGen sources.Below lower other := by
  induction climbs generalizing lower info with
  | top => cases among
  | @step name own names next goesOn ih =>
    have first : sources.Below lower name := ⟨info, answer, above⟩
    rcases List.mem_cons.1 among with rfl | behind
    · exact .single first
    · exact .head first (ih next rfl behind)
  | root =>
    obtain rfl := List.mem_singleton.1 among
    exact .single ⟨info, answer, above⟩

namespace Ascends

/-- Whatever lies behind a class on a way is above it. -/
theorem transGen_below {before after : List String} {met other : String}
    (ascends : sources.Ascends name (before ++ met :: after)) (behind : other ∈ after) :
    Relation.TransGen sources.Below met other := by
  cases ascends.climbs.suffix with
  | step answer goesOn => exact goesOn.transGen_below answer rfl behind
  | root => cases behind

/-- The first common class is the same from both sides. -/
theorem find?_comm (first : sources.Ascends left lefts) (second : sources.Ascends right rights) :
    rights.find? lefts.contains = lefts.find? rights.contains := by
  cases found : rights.find? lefts.contains with
  | none =>
    symm
    rw [List.find?_eq_none] at found ⊢
    intro name inLeft shared
    have inRight : name ∈ rights := by simpa using shared
    exact found name inRight (by simpa using inLeft)
  | some met =>
    obtain ⟨shared, before, after, rfl, apart⟩ := List.find?_eq_some_iff_append.1 found
    have inLeft : met ∈ lefts := by simpa using shared
    obtain ⟨before', after', rfl⟩ := List.append_of_mem inLeft
    obtain rfl := first.rest_unique second
    symm
    refine List.find?_eq_some_iff_append.2 ⟨by simp, before', after', rfl, ?_⟩
    intro name early
    have apart : name ∉ before := fun among => by simpa [early] using apart name among
    -- A class that both ways have before they meet would come a second time on the first way.
    have late : name ∉ met :: after' := first.nodup.disjoint early
    simpa [not_or] using And.intro apart (by simpa using late)

end Ascends

namespace Common

theorem symm {answer : String} (common : sources.Common left right answer) :
    sources.Common right left answer := by
  cases common with
  | met first second =>
    rw [first.find?_comm second]
    exact .met second first
  | unknown lost => exact .unknown fun rights lefts second first => lost lefts rights first second

theorem unique {answer other : String} (common : sources.Common left right answer)
    (common' : sources.Common left right other) : answer = other := by
  cases common with
  | met first second =>
    cases common' with
    | met first' second' => rw [first.unique first', second.unique second']
    | unknown lost => exact absurd second (lost _ _ first)
  | unknown lost =>
    cases common' with
    | met first second => exact absurd second (lost _ _ first)
    | unknown => rfl

/-- The answer where both ways are known: the least class of both, or the root class if they have
none in common. -/
theorem of_ascends {answer : String} (common : sources.Common left right answer)
    (first : sources.Ascends left lefts) (second : sources.Ascends right rights) :
    (answer ∈ lefts ∧ answer ∈ rights ∧ ∀ other ∈ lefts, other ∈ rights →
      other = answer ∨ Relation.TransGen sources.Below answer other) ∨
    answer = ClassName.object ∧ ∀ other ∈ lefts, other ∉ rights := by
  obtain rfl := common.unique (.met first second)
  cases found : rights.find? lefts.contains with
  | none =>
    refine .inr ⟨rfl, fun other inLeft inRight => ?_⟩
    simpa [inLeft] using List.find?_eq_none.1 found other inRight
  | some met =>
    obtain ⟨shared, before, after, split, apart⟩ := List.find?_eq_some_iff_append.1 found
    have shared : met ∈ lefts := by simpa using shared
    have apart : ∀ name ∈ before, name ∉ lefts := by simpa using apart
    refine .inl ⟨shared, List.mem_of_find?_eq_some found, fun other inLeft inRight => ?_⟩
    have behind := (first.mem_both_iff second split shared apart other).2 ⟨inLeft, inRight⟩
    rw [split] at second
    exact (List.mem_cons.1 behind).imp_right second.transGen_below

end Common

/-! ## Classes without a way up -/

theorem Climbs.not_lost (climbs : sources.Climbs (some name) names) : ¬ sources.Lost name := by
  intro lost
  induction lost generalizing names with
  | here other answer =>
    cases climbs with
    | step answer' =>
      rw [answer] at answer'
      cases answer'
    | root => exact other rfl
  | above below _ ih =>
    obtain ⟨info, answer, above⟩ := below
    cases climbs with
    | step answer' goesOn =>
      rw [answer] at answer'
      cases answer'
      rw [above] at goesOn
      exact ih goesOn
    | root answer' =>
      rw [answer] at answer'
      cases answer'

/-- A way up that does not go on for ever ends, or is lost. -/
theorem Grounded.climbs_or_lost (grounded : sources.Grounded) (name : String) :
    (∃ names, sources.Climbs (some name) names) ∨ sources.Lost name := by
  induction name using grounded.induction with
  | h name ih =>
    cases answer : sources.answer name with
    | error cause =>
      by_cases root : name = ClassName.object
      · subst root
        exact .inl ⟨_, .root answer⟩
      · exact .inr (.here root answer)
    | ok info =>
      cases above : info.superName with
      | none => exact .inl ⟨[name], .step answer (above ▸ .top)⟩
      | some upper =>
        have below : sources.Below name upper := ⟨info, answer, above⟩
        rcases ih upper below with ⟨names, climbs⟩ | lost
        · exact .inl ⟨name :: names, .step answer (above ▸ climbs)⟩
        · exact .inr (.above below lost)

/-- Only what strands a class keeps it from having a way up. -/
theorem Grounded.stranded_iff (grounded : sources.Grounded) (name : String) :
    sources.Stranded name ↔ ¬ ∃ names, sources.Ascends name names := by
  constructor
  · rintro stranded ⟨names, ascends⟩
    cases stranded with
    | missing answer => exact ascends.answer_ne answer
    | interface answer declared =>
      rw [ascends.not_interface answer] at declared
      cases declared
    | lost below lost => exact ascends.climbs.not_lost (.above below lost)
  · intro nowhere
    cases answer : sources.answer name with
    | error cause => exact .missing answer
    | ok info =>
      cases declared : info.isInterface with
      | true => exact .interface answer declared
      | false =>
        -- Only here is the climb known to end: from a class it reaches the root or gets lost.
        rcases grounded.climbs_or_lost name with ⟨names, climbs⟩ | lost
        · cases climbs with
          | step answer' goesOn =>
            rw [answer] at answer'
            cases answer'
            exact absurd ⟨_, info, _, answer, declared, goesOn, rfl⟩ nowhere
          | root answer' =>
            rw [answer] at answer'
            cases answer'
        · cases lost with
          | here _ answer' =>
            rw [answer] at answer'
            cases answer'
          | above below lost => exact .lost below lost

/-! ## The answer of a cache -/

/-- **The common superclass of two classes** as a cache answers it, whatever the cache was used for
before.  It is the same from both sides.  Where both classes have a way up, it is the least class
of both ways, or the root class if they do not meet; for other names that differ it is the root
class.  As long as no way goes on for ever, these are the names of which one is stranded. -/
theorem commonSuperclass_least {forest : Forest} (rooted : forest.Rooted) (apart : forest.Apart)
    (bootstrap : Option ClassTable) (number : Option Nat) (history : List ClassCache.Call)
    (left right : String) :
    let sources := forest.sources bootstrap number
    let hierarchy := sources.hierarchy (ClassCache.run forest bootstrap history ClassCache.empty)
    let answer := hierarchy.commonSuperclass left right
    hierarchy.commonSuperclass right left = answer ∧
    (∀ lefts rights, sources.Ascends left lefts → sources.Ascends right rights →
      (answer ∈ lefts ∧ answer ∈ rights ∧ ∀ other ∈ lefts, other ∈ rights →
        other = answer ∨ Relation.TransGen sources.Below answer other) ∨
      answer = ClassName.object ∧ ∀ other ∈ lefts, other ∉ rights) ∧
    (left ≠ right →
      (¬ ∃ lefts rights, sources.Ascends left lefts ∧ sources.Ascends right rights) →
      answer = ClassName.object) ∧
    (sources.Grounded →
      ((¬ ∃ lefts rights, sources.Ascends left lefts ∧ sources.Ascends right rights) ↔
        sources.Stranded left ∨ sources.Stranded right)) := by
  intro sources hierarchy answer
  have common {left right : String} (different : left ≠ right) :
      sources.Common left right (hierarchy.commonSuperclass left right) :=
    (commonSuperclass_tells (resolve_tells rooted apart number) different _
      (ClassCache.run_sound rooted apart history ClassCache.empty_sound)).1
  have nowhere (grounded : sources.Grounded) :
      (¬ ∃ lefts rights, sources.Ascends left lefts ∧ sources.Ascends right rights) ↔
        sources.Stranded left ∨ sources.Stranded right := by
    rw [grounded.stranded_iff, grounded.stranded_iff, ← not_and_or, exists_and_exists_comm]
  by_cases same : left = right
  · subst same
    have own : answer = left := by
      show (commonSuperclass sources left left _).1 = left
      rw [commonSuperclass, if_pos rfl]
      rfl
    refine ⟨rfl, fun lefts rights first second => .inl ?_, fun apart => absurd rfl apart, nowhere⟩
    -- A class with a way up meets itself at the first step, and the rest of that way is above it.
    obtain rfl := first.unique second
    obtain ⟨info, above, _, _, _, rfl⟩ := id first
    have startsHere : sources.Ascends left ([] ++ left :: above) := first
    rw [own]
    refine ⟨List.mem_cons_self, List.mem_cons_self, fun other among _ => ?_⟩
    exact (List.mem_cons.1 among).imp_right startsHere.transGen_below
  · have told := common same
    refine ⟨(common (Ne.symm same)).unique told.symm, fun lefts rights => told.of_ascends,
      fun _ lost => ?_, nowhere⟩
    exact told.unique (.unknown fun lefts rights first second => lost ⟨lefts, rights, first, second⟩)

/-- Two classes with the same superclass, and a name that is not to be had. -/
theorem commonSuperclass_least_twins :
    let sources := Sample.seen 'C'
    let hierarchy := sources.hierarchy ClassCache.empty
    Forest.empty.Rooted ∧ Forest.empty.Apart ∧ sources.Grounded ∧
      sources.Ascends "A" ["A", "C"] ∧ sources.Ascends "B" ["B", "C"] ∧ sources.Stranded "D" ∧
      hierarchy.commonSuperclass "A" "B" = "C" ∧ hierarchy.commonSuperclass "B" "A" = "C" ∧
      hierarchy.commonSuperclass "A" "D" = ClassName.object := by
  intro sources hierarchy
  have top : sources.answer "C" = .ok ⟨⟨"C"⟩, none, [], false, [], [], none⟩ := by decide +kernel
  have left : sources.answer "A" = .ok ⟨⟨"A"⟩, some "C", [], false, [], [], none⟩ := by
    decide +kernel
  have right : sources.answer "B" = .ok ⟨⟨"B"⟩, some "C", [], false, [], [], none⟩ := by
    decide +kernel
  have missing : sources.answer "D" = .error (.notFound "bootstrap" "D") := by decide +kernel
  have grounded : sources.Grounded := Sample.seen_grounded (.inl rfl)
  have first : sources.Ascends "A" ["A", "C"] := ⟨_, _, left, rfl, .step top .top, rfl⟩
  have second : sources.Ascends "B" ["B", "C"] := ⟨_, _, right, rfl, .step top .top, rfl⟩
  have stranded : sources.Stranded "D" := .missing missing
  have twins := commonSuperclass_least Forest.rooted_empty Forest.apart_empty
    (some (Sample.twins 'C')) none [] "A" "B"
  have lone := commonSuperclass_least Forest.rooted_empty Forest.apart_empty
    (some (Sample.twins 'C')) none [] "A" "D"
  obtain ⟨symm, both, _⟩ := twins
  obtain ⟨_, _, lost, known⟩ := lone
  have meet : hierarchy.commonSuperclass "A" "B" = "C" := by
    rcases both _ _ first second with ⟨inLeft, inRight, _⟩ | ⟨_, apart⟩
    · rcases List.mem_pair.1 inLeft with own | met
      · rw [own] at inRight
        simp at inRight
      · exact met
    · exact absurd (List.mem_pair.2 (.inr rfl)) (apart "C" (List.mem_pair.2 (.inr rfl)))
  exact ⟨Forest.rooted_empty, Forest.apart_empty, grounded, first, second, stranded, meet,
    symm.trans meet, lost (by decide) ((known grounded).2 (.inr stranded))⟩

end Sources

end ClassWeave
