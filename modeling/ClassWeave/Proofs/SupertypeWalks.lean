/-
# ClassWeave.Proofs.SupertypeWalks -- the hierarchy is what the sources say

Questions about supertypes are answered step by step over a cache.  `Sources.Gathers` and
`Sources.Climbs` say what the two walks come to without any cache and without a bound on
the steps; both leave only one answer.  A walk never follows a name twice, so the names
that the visible classes mention bound its steps, and the bound that the walks are given
is always enough (`Sources.collect_tells`, `Sources.climb_tells`).

So every question has one answer for all sound caches (`Steady`), and leaves a sound
cache for the next one.
-/
import ClassWeave.Loader.Hierarchy
import ClassWeave.Proofs.Mentions
import Mathlib.Data.List.Perm.Subperm

set_option autoImplicit false

namespace ClassWeave

/-! ## Steps from sound caches -/

section Steps

variable {forest : Forest} {bootstrap : Option ClassTable} {α β : Type} {step : Resolving α}
  {next : α → Resolving β} {told : α → Prop} {later : β → Prop}

/-- From every sound cache the step returns what is told of it, and leaves a sound cache. -/
def Tells (forest : Forest) (bootstrap : Option ClassTable) {α : Type} (step : Resolving α)
    (told : α → Prop) : Prop :=
  ∀ cache : ClassCache, cache.Sound forest bootstrap →
    told (step cache).1 ∧ (step cache).2.Sound forest bootstrap

/-- The step returns the same from every sound cache. -/
def Steady (forest : Forest) (bootstrap : Option ClassTable) {α : Type} (step : Resolving α) :
    Prop :=
  ∃ value, Tells forest bootstrap step (· = value)

namespace Tells

theorem pure {value : α} (holds : told value) : Tells forest bootstrap (pure value) told :=
  fun _ sound => ⟨holds, sound⟩

theorem bind (tells : Tells forest bootstrap step told)
    (goesOn : ∀ value, told value → Tells forest bootstrap (next value) later) :
    Tells forest bootstrap (step >>= next) later := by
  intro cache sound
  obtain ⟨holds, sound'⟩ := tells cache sound
  exact goesOn _ holds _ sound'

theorem mono {better : α → Prop} (tells : Tells forest bootstrap step better)
    (weaker : ∀ value, better value → told value) : Tells forest bootstrap step told := by
  intro cache sound
  obtain ⟨holds, sound'⟩ := tells cache sound
  exact ⟨weaker _ holds, sound'⟩

theorem get : Tells forest bootstrap get (ClassCache.Sound forest bootstrap) :=
  fun _ sound => ⟨sound, sound⟩

/-- What is told leaves only one value. -/
theorem steady (tells : Tells forest bootstrap step told)
    (unique : ∀ a b, told a → told b → a = b) : Steady forest bootstrap step := by
  refine ⟨(step ClassCache.empty).1, tells.mono fun value holds => ?_⟩
  exact unique _ _ holds (tells _ ClassCache.empty_sound).1

end Tells

namespace Steady

theorem pure (value : α) : Steady forest bootstrap (pure value) := ⟨value, Tells.pure rfl⟩

theorem bind (steady : Steady forest bootstrap step)
    (goesOn : ∀ value, Steady forest bootstrap (next value)) :
    Steady forest bootstrap (step >>= next) := by
  obtain ⟨value, tells⟩ := steady
  obtain ⟨result, tells'⟩ := goesOn value
  refine ⟨result, tells.bind fun other same => ?_⟩
  rw [same]
  exact tells'

theorem eq_empty (steady : Steady forest bootstrap step) {cache : ClassCache}
    (sound : cache.Sound forest bootstrap) : (step cache).1 = (step ClassCache.empty).1 := by
  obtain ⟨value, tells⟩ := steady
  exact (tells cache sound).1.trans (tells _ ClassCache.empty_sound).1.symm

end Steady

end Steps

/-! ## Walks without a cache -/

namespace Sources

/-- The supertypes a class names, as seen from one place; none if it is not to be had. -/
def above (sources : Sources) (name : String) : List String :=
  match sources.answer name with
  | .ok info => info.supertypes
  | .error _ => []

/-- The names in a queue and all their supertypes, in the order they are met, after those found
already. -/
inductive Gathers (sources : Sources) : List String → List String → List String → Prop
  | done {found queue : List String} (stale : queue.dropWhile found.contains = []) :
      Gathers sources found queue found.reverse
  | step {found queue rest names : List String} {name : String}
      (next : queue.dropWhile found.contains = name :: rest)
      (goesOn : Gathers sources (name :: found) (rest ++ sources.above name) names) :
      Gathers sources found queue names

/-- The names on the way up, as far as it goes: to a class without superclass, or to a root class
that is not to be had. -/
inductive Climbs (sources : Sources) : Option String → List String → Prop
  | top : Climbs sources none []
  | step {name : String} {info : ClassInfo} {names : List String}
      (answer : sources.answer name = .ok info) (goesOn : Climbs sources info.superName names) :
      Climbs sources (some name) (name :: names)
  | root {cause : ResolveError} (answer : sources.answer ClassName.object = .error cause) :
      Climbs sources (some ClassName.object) [ClassName.object]

variable {sources : Sources}

theorem Gathers.unique {found queue names names' : List String}
    (gathers : Gathers sources found queue names) (gathers' : Gathers sources found queue names') :
    names = names' := by
  induction gathers with
  | done stale =>
    cases gathers' with
    | done => rfl
    | step next _ =>
      rw [stale] at next
      cases next
  | step next _ ih =>
    cases gathers' with
    | done stale =>
      rw [stale] at next
      cases next
    | step next' goesOn =>
      rw [next] at next'
      cases next'
      exact ih goesOn

theorem above_subset_mentions (name : String) : sources.above name ⊆ sources.mentions := by
  unfold above
  split
  · exact supertypes_subset_mentions ‹_›
  · exact List.nil_subset _

namespace Climbs

theorem unique {start : Option String} {names names' : List String}
    (climbs : Climbs sources start names) (climbs' : Climbs sources start names') :
    names = names' := by
  induction climbs generalizing names' with
  | top =>
    cases climbs'
    rfl
  | step answer _ ih =>
    cases climbs' with
    | step answer' goesOn =>
      rw [answer] at answer'
      cases answer'
      rw [ih goesOn]
    | root answer' =>
      rw [answer] at answer'
      cases answer'
  | root answer =>
    cases climbs' with
    | step answer' =>
      rw [answer] at answer'
      cases answer'
    | root => rfl

/-- The way goes on in the same way from each of its names. -/
theorem suffix {name : String} {after : List String} : ∀ {before : List String}
    {start : Option String}, Climbs sources start (before ++ name :: after) →
    Climbs sources (some name) (name :: after)
  | [], _, climbs => by
    cases climbs with
    | step answer goesOn => exact .step answer goesOn
    | root answer => exact .root answer
  | first :: before, _, climbs => by
    generalize whole : first :: before ++ name :: after = names at climbs
    cases climbs with
    | top => cases whole
    | step answer goesOn =>
      cases whole
      exact goesOn.suffix
    | root answer => simp at whole

/-- No name comes twice, since the way from it would never end. -/
theorem nodup {start : Option String} {names : List String} (climbs : Climbs sources start names) :
    names.Nodup := by
  induction climbs with
  | top => exact List.nodup_nil
  | @step name info names answer goesOn ih =>
    refine List.nodup_cons.2 ⟨fun again => ?_, ih⟩
    obtain ⟨before, after, split⟩ := List.append_of_mem again
    have whole : Climbs sources (some name) (name :: names) := .step answer goesOn
    have part : Climbs sources (some name) (name :: after) := by
      rw [split] at goesOn
      exact goesOn.suffix
    have same := congrArg List.length (whole.unique part)
    rw [split] at same
    simp only [List.length_cons, List.length_append] at same
    omega
  | root => simp

theorem subset {info : ClassInfo} {names : List String}
    (climbs : Climbs sources info.superName names) :
    names ⊆ info.supertypes ++ sources.mentions := by
  generalize above : info.superName = start at climbs
  induction climbs generalizing info with
  | top => exact List.nil_subset _
  | @step name info' names answer goesOn ih =>
    refine List.cons_subset.2 ⟨?_, ?_⟩
    · simp [ClassInfo.supertypes, above]
    · have mentioned := supertypes_subset_mentions answer
      intro other among
      rcases List.mem_append.1 (ih rfl among) with own | else_
      · exact List.mem_append_right _ (mentioned own)
      · exact List.mem_append_right _ else_
  | root => simp [ClassInfo.supertypes, above]

end Climbs

/-! ## Walks over sound caches -/

/-- The steps a walk is given are more than the names it can meet. -/
theorem lt_stepBound (sources : Sources) (cache : ClassCache) (info : ClassInfo) :
    (info.supertypes ++ sources.mentions).length < sources.stepBound cache info := by
  have few := mentions_length_le sources
  unfold stepBound
  rw [List.length_append]
  omega

section Walks

variable {forest : Forest} {bootstrap : Option ClassTable}

theorem resolve_tells (rooted : forest.Rooted) (apart : forest.Apart) (number : Option Nat)
    (name : String) :
    Tells forest bootstrap ((forest.sources bootstrap number).resolve name) fun outcome =>
      outcome.map CachedClass.info = (forest.sources bootstrap number).answer name := by
  intro cache sound
  have resolved := ClassCache.resolved rooted apart sound number name
  exact ⟨resolved.answer, resolved.sound rooted sound⟩

-- All that the walks need to know of the sources is that resolving tells their answers.
variable (resolves : ∀ name, Tells forest bootstrap (sources.resolve name) fun outcome =>
  outcome.map CachedClass.info = sources.answer name)

include resolves

/-- A name is found at most once, so the walk is over before the steps are. -/
theorem collect_tells {world : List String} (mentioned : sources.mentions ⊆ world) :
    ∀ (fuel : Nat) {found queue : List String}, found.Nodup → found ⊆ world → queue ⊆ world →
      world.length < found.length + fuel →
      Tells forest bootstrap (sources.collect fuel found queue) (sources.Gathers found queue)
  | 0, found, queue, once, known, _, enough => by
    have few := (List.subperm_of_subset once known).length_le
    omega
  | fuel + 1, found, queue, once, known, waiting, enough => by
    rw [collect]
    cases next : queue.dropWhile found.contains with
    | nil => exact Tells.pure (.done next)
    | cons name rest =>
      have fresh : name ∉ found := by
        have some_ : queue.dropWhile found.contains ≠ [] := by simp [next]
        have first := List.head_dropWhile_not found.contains some_
        simpa [next] using first
      have remaining : name :: rest ⊆ world := by
        rw [← next]
        exact List.Subset.trans (List.dropWhile_sublist _).subset waiting
      have inside := List.cons_subset.1 remaining
      refine (resolves name).bind fun outcome answer => ?_
      have goesOn : Tells forest bootstrap
          (sources.collect fuel (name :: found) (rest ++ sources.above name))
          (sources.Gathers found queue) := by
        have nodup := List.nodup_cons.2 ⟨fresh, once⟩
        have known' := List.cons_subset.2 ⟨inside.1, known⟩
        have waiting' : rest ++ sources.above name ⊆ world := by
          have more := List.Subset.trans (above_subset_mentions name) mentioned
          exact List.append_subset.2 ⟨inside.2, more⟩
        -- A name more is found, and a step less is left.
        refine (collect_tells mentioned fuel nodup known' waiting' ?_).mono fun names gathers => ?_
        · rw [List.length_cons]
          omega
        · exact .step next gathers
      cases outcome with
      | ok cached =>
        have supertypes : sources.above name = cached.info.supertypes := by
          rw [above, ← answer]
          rfl
        rw [supertypes] at goesOn
        exact goesOn
      | error cause =>
        have nothing : sources.above name = [] := by
          rw [above, ← answer]
          rfl
        rw [nothing, List.append_nil] at goesOn
        exact goesOn

/-- The supertypes of a class are those that the sources tell. -/
theorem supertypes_tells (info : ClassInfo) :
    Tells forest bootstrap (sources.supertypes info false)
      (sources.Gathers [] info.supertypes) := by
  refine Tells.get.bind fun cache _ => ?_
  have enough := lt_stepBound sources cache info
  show Tells _ _ (collect sources (sources.stepBound cache info) [] info.supertypes) _
  refine collect_tells resolves (List.subset_append_right _ _) _ List.nodup_nil
    (List.nil_subset _) (List.subset_append_left _ _) ?_
  rw [List.length_nil, Nat.zero_add]
  exact enough

/-- With steps enough the walk up comes to the end of the way, and only if there is one. -/
theorem climb_tells : ∀ (fuel : Nat) (found : List String) (info : ClassInfo),
    Tells forest bootstrap (sources.climb fuel found info) fun outcome =>
      (∀ names, outcome = some names → ∃ above,
        sources.Climbs info.superName above ∧
          names = found.reverse ++ above) ∧
      ∀ above, sources.Climbs info.superName above →
        above.length < fuel → outcome = some (found.reverse ++ above)
  | 0, found, info => by
    refine Tells.pure ⟨nofun, ?_⟩
    intro above _ short
    omega
  | fuel + 1, found, info => by
    rw [climb]
    cases start : info.superName with
    | none =>
      refine Tells.pure ⟨?_, ?_⟩
      · intro names same
        cases same
        exact ⟨[], .top, (List.append_nil _).symm⟩
      · intro above climbs _
        cases climbs
        rw [List.append_nil]
    | some name =>
      refine (resolves name).bind fun outcome answer => ?_
      cases outcome with
      | ok cached =>
        refine (climb_tells fuel (name :: found) cached.info).mono fun outcome told => ?_
        obtain ⟨sound, complete⟩ := told
        simp only [List.reverse_cons, List.append_assoc] at sound complete
        refine ⟨?_, ?_⟩
        · intro names same
          obtain ⟨above, climbs, rfl⟩ := sound names same
          exact ⟨name :: above, .step answer.symm climbs, rfl⟩
        · intro above climbs short
          cases climbs with
          | step answer' goesOn =>
            rw [← answer] at answer'
            cases answer'
            refine complete _ goesOn ?_
            rw [List.length_cons] at short
            omega
          | root answer' =>
            rw [← answer] at answer'
            cases answer'
      | error cause =>
        refine Tells.pure ⟨?_, ?_⟩
        · intro names same
          split at same
          · rename_i isObject
            cases same
            rw [isObject] at answer ⊢
            exact ⟨[ClassName.object], .root answer.symm, by simp⟩
          · cases same
        · intro above climbs _
          cases climbs with
          | step answer' =>
            rw [← answer] at answer'
            cases answer'
          | root answer' => simp

/-- A class and its superclasses are those on the way up from it, if there is a way. -/
theorem superclasses_tells (name : String) :
    Tells forest bootstrap (sources.superclasses name) fun outcome =>
      ∀ names, outcome = some names ↔ ∃ info above, sources.answer name = .ok info ∧
        sources.Climbs info.superName above ∧ names = name :: above := by
  refine (resolves name).bind fun outcome answer => ?_
  cases outcome with
  | error cause =>
    refine Tells.pure fun names => ⟨nofun, ?_⟩
    rintro ⟨info, above, answer', _⟩
    rw [← answer] at answer'
    cases answer'
  | ok cached =>
    refine Tells.get.bind fun cache _ => ?_
    show Tells _ _ (climb sources (sources.stepBound cache cached.info) [name] cached.info) _
    refine (climb_tells resolves _ [name] cached.info).mono fun outcome told => ?_
    obtain ⟨sound, complete⟩ := told
    intro names
    constructor
    · intro same
      obtain ⟨above, climbs, rfl⟩ := sound names same
      exact ⟨cached.info, above, answer.symm, climbs, rfl⟩
    · rintro ⟨info, above, answer', climbs, rfl⟩
      rw [← answer] at answer'
      cases answer'
      refine complete above climbs ?_
      have few := (List.subperm_of_subset climbs.nodup climbs.subset).length_le
      exact Nat.lt_of_le_of_lt few (lt_stepBound sources cache cached.info)

/-! ## Questions -/

theorem supertypes_steady (info : ClassInfo) (onlyDirect : Bool) :
    Steady forest bootstrap (sources.supertypes info onlyDirect) := by
  cases onlyDirect with
  | true => exact .pure _
  | false =>
    exact (supertypes_tells resolves info).steady fun _ _ first second => first.unique second

theorem superclasses_steady (name : String) :
    Steady forest bootstrap (sources.superclasses name) := by
  refine (superclasses_tells resolves name).steady fun first second told told' => ?_
  exact Option.ext fun names => (told names).trans (told' names).symm

/-- A class that was resolved is looked at without the number of its entry. -/
theorem resolve_steady {α : Type} (name : String)
    {next : Except ResolveError CachedClass → Resolving α}
    (blind : ∀ i j info, next (.ok ⟨i, info⟩) = next (.ok ⟨j, info⟩))
    (goesOn : ∀ outcome, Steady forest bootstrap (next outcome)) :
    Steady forest bootstrap (sources.resolve name >>= next) := by
  cases known : sources.answer name with
  | error cause =>
    obtain ⟨value, tells⟩ := goesOn (.error cause)
    refine ⟨value, (resolves name).bind fun outcome answer => ?_⟩
    rw [known] at answer
    cases outcome with
    | error same =>
      cases answer
      exact tells
    | ok cached => cases answer
  | ok info =>
    obtain ⟨value, tells⟩ := goesOn (.ok ⟨0, info⟩)
    refine ⟨value, (resolves name).bind fun outcome answer => ?_⟩
    rw [known] at answer
    cases outcome with
    | error same => cases answer
    | ok cached =>
      obtain ⟨number, same⟩ := cached
      cases answer
      rw [blind number 0]
      exact tells

theorem commonSuperclass_steady (left right : String) :
    Steady forest bootstrap (sources.commonSuperclass left right) := by
  unfold commonSuperclass
  split
  · exact .pure _
  refine resolve_steady resolves left (fun _ _ _ => rfl) fun leftClass => ?_
  cases leftClass with
  | error cause => exact .pure _
  | ok leftClass =>
    refine resolve_steady resolves right (fun _ _ _ => rfl) fun rightClass => ?_
    cases rightClass with
    | error cause => exact .pure _
    | ok rightClass =>
      simp only
      split
      · exact .pure _
      · refine (superclasses_steady resolves left).bind fun leftNames => ?_
        cases leftNames with
        | none => exact .pure _
        | some leftNames =>
          refine (superclasses_steady resolves right).bind fun rightNames => ?_
          cases rightNames with
          | none => exact .pure _
          | some rightNames => exact .pure _

theorem isSubtype_steady (info : ClassInfo) (name : String) :
    Steady forest bootstrap (sources.isSubtype info name) := by
  unfold isSubtype
  simp only
  split
  · exact .pure _
  · exact (supertypes_steady resolves info false).bind fun names => .pure _

/-- Every sound cache knows the same hierarchy. -/
theorem hierarchy_eq {cache : ClassCache} (sound : cache.Sound forest bootstrap) :
    sources.hierarchy cache = sources.hierarchy ClassCache.empty := by
  unfold hierarchy
  congr
  funext left right
  exact (commonSuperclass_steady resolves left right).eq_empty sound

theorem settleQuestions_sound : ∀ (questions : List (String × String)) {cache : ClassCache},
    cache.Sound forest bootstrap → (sources.settleQuestions questions cache).Sound forest bootstrap
  | [], _, sound => sound
  | (left, right) :: questions, cache, sound => by
    obtain ⟨_, tells⟩ := commonSuperclass_steady resolves left right
    exact settleQuestions_sound questions (tells cache sound).2

end Walks

end Sources

end ClassWeave
