/-
# ClassWeave.Proofs.LateClasses -- which entry answers for a name when classes come late

Classes are resolved while loaders are given more classes.  An entry stands under the
loader that its class belongs to, and nothing that is done to the loaders changes or
removes it (`World.run_holds`).  A name is looked for at the same places in the same order
all along, so the first of them that has an entry answers (`Standing.lookup_eq_some`), and
a name keeps its answer until a place above the answering one gets an entry of its own
(`World.resolve_stays`).  That takes a class that came to this place after the name was
first resolved from further down.
-/
import ClassWeave.Proofs.CacheContents

set_option autoImplicit false

namespace ClassWeave

/-! ## Places -/

namespace Sources

/-- Where a class is looked for, in this order: with the bootstrap loader, then along the chain. -/
def places (sources : Sources) : List (Option LoaderKey) :=
  none :: sources.chain.map (some ·.key)

/-- The places that come before one of them. -/
def higher (sources : Sources) (owner : Option LoaderKey) : List (Option LoaderKey) :=
  sources.places.takeWhile (· ≠ owner)

/-- What is above a place comes before it wherever the places are split at it. -/
theorem higher_of_split {sources : Sources} {before after : List (Option LoaderKey)}
    {owner : Option LoaderKey} (split : sources.places = before ++ owner :: after)
    (fresh : owner ∉ before) : sources.higher owner = before := by
  have others : ∀ place ∈ before, decide (place ≠ owner) = true := by
    intro place among
    have elsewhere : place ≠ owner := fun same => fresh (same ▸ among)
    simpa using elsewhere
  rw [higher, split, List.takeWhile_append_of_pos others]
  simp

theorem not_mem_higher (sources : Sources) (owner : Option LoaderKey) :
    owner ∉ sources.higher owner := by
  intro among
  simpa using List.all_eq_true.1 List.all_takeWhile owner among

theorem mem_places_of_locate {sources : Sources} {name : ClassName} {owner : Option LoaderKey}
    {bytes : Bytes} (located : sources.locate name = some (owner, bytes)) :
    owner ∈ sources.places := by
  cases locate_eq_some.1 located with
  | bootstrap _ => exact List.mem_cons_self
  | loader _ chain _ _ => simp [places, chain]

/-- A place stands right behind those above it. -/
theorem places_split {sources : Sources} {owner : Option LoaderKey}
    (seen : owner ∈ sources.places) :
    ∃ after, sources.places = sources.higher owner ++ owner :: after := by
  obtain ⟨before, after, split, fresh⟩ := List.eq_append_cons_of_mem seen
  exact ⟨after, by rw [higher_of_split split fresh, split]⟩

/-- Of two places one is above the other. -/
theorem mem_higher_of_ne {sources : Sources} {owner other : Option LoaderKey}
    (seen : other ∈ sources.places) (apart : other ≠ owner)
    (lower : owner ∉ sources.higher other) : other ∈ sources.higher owner := by
  obtain ⟨after, split⟩ := places_split seen
  have before : ∀ place ∈ sources.higher other, decide (place ≠ owner) = true := by
    intro place among
    have elsewhere : place ≠ owner := fun same => lower (same ▸ among)
    simpa using elsewhere
  rw [higher, split, List.takeWhile_append_of_pos before]
  simp [apart]

end Sources

namespace ClassCache

theorem lookupIn_eq (cache : ClassCache) (name : ClassName) (chain : List Loader) :
    cache.lookupIn name chain =
      (chain.map (some ·.key)).findSome? (cache.held · name.internal) := by
  induction chain with
  | nil => rfl
  | cons loader rest ih =>
    have own : cache.held (some loader.key) name.internal =
        (cache.loaders[loader.key]?).bind (·[name.internal]?) := rfl
    rw [lookupIn, List.map_cons, List.findSome?_cons, ih, own]
    cases (cache.loaders[loader.key]?).bind (·[name.internal]?) <;> rfl

/-- The first place that has an entry answers. -/
theorem lookup_eq_findSome? (cache : ClassCache) (sources : Sources) (name : ClassName) :
    cache.lookup sources name = sources.places.findSome? (cache.held · name.internal) := by
  have own : cache.held none name.internal = cache.bootstrap[name.internal]? := rfl
  rw [lookup, Sources.places, List.findSome?_cons, lookupIn_eq, own]
  cases cache.bootstrap[name.internal]? <;> rfl

/-- Every entry stands under the loader that its class belongs to. -/
structure Standing (cache : ClassCache) : Prop where
  belongs : ∀ {owner name cached}, cache.held owner name = some cached →
    cached.info.loader = owner

theorem empty_standing : empty.Standing := by
  refine ⟨?_⟩
  intro owner name cached known
  simp at known

theorem Standing.store {cache : ClassCache} (standing : cache.Standing) (name : ClassName)
    (info : ClassInfo) : (cache.store name info).2.Standing := by
  refine ⟨?_⟩
  intro owner other cached known
  rw [held_store] at known
  split at known
  · rename_i own
    cases known
    exact own.1.symm
  · exact standing.belongs known

/-- An entry answers from wherever its owner is seen, if no place above has an entry. -/
theorem Standing.lookup_eq_some {cache : ClassCache} (standing : cache.Standing)
    {sources : Sources} {name : ClassName} {cached : CachedClass} :
    cache.lookup sources name = some cached ↔
      cached.info.loader ∈ sources.places ∧
      cache.held cached.info.loader name.internal = some cached ∧
      ∀ place ∈ sources.higher cached.info.loader, cache.held place name.internal = none := by
  rw [lookup_eq_findSome?, List.findSome?_eq_some_iff]
  constructor
  · rintro ⟨before, owner, after, split, known, higher⟩
    obtain rfl := standing.belongs known
    have fresh : cached.info.loader ∉ before := by
      intro among
      rw [higher _ among] at known
      cases known
    rw [Sources.higher_of_split split fresh]
    refine ⟨?_, known, higher⟩
    rw [split]
    simp
  · rintro ⟨seen, known, higher⟩
    obtain ⟨after, split⟩ := Sources.places_split seen
    exact ⟨_, _, after, split, known, higher⟩

/-! ## Resolving -/

variable {cache : ClassCache} {sources : Sources} {name : String}

/-- A class that could be resolved had the answering entry, or has got a first one where it was
located. -/
theorem resolve_eq_ok {cached : CachedClass} (done : (cache.resolve sources name).1 = .ok cached) :
    cache.lookup sources (ClassName.ofString name) = some cached ∧
        (cache.resolve sources name).2 = cache ∨
      cache.lookup sources (ClassName.ofString name) = none ∧
        (∃ bytes, sources.locate (ClassName.ofString name) = some (cached.info.loader, bytes)) ∧
        cached = ⟨cache.next, cached.info⟩ ∧
        (cache.resolve sources name).2 = (cache.store (ClassName.ofString name) cached.info).2 := by
  unfold resolve at done ⊢
  cases looked : cache.lookup sources (ClassName.ofString name) with
  | some found =>
    simp only [looked] at done ⊢
    cases done
    exact .inl ⟨rfl, trivial⟩
  | none =>
    cases located : sources.locate (ClassName.ofString name) with
    | none =>
      simp only [looked, located] at done
      cases done
    | some found =>
      obtain ⟨owner, bytes⟩ := found
      cases read : ClassInfo.ofBytes bytes owner with
      | error cause =>
        simp only [looked, located, read] at done
        cases done
      | ok info =>
        simp only [looked, located, read, store_fst] at done ⊢
        cases done
        obtain rfl := ClassInfo.loader_of_ofBytes read
        exact .inr ⟨trivial, ⟨bytes, rfl⟩, rfl, rfl⟩

/-- What cannot be resolved leaves no trace. -/
theorem resolve_failed {cause : ResolveError}
    (failed : (cache.resolve sources name).1 = .error cause) :
    (cache.resolve sources name).2 = cache := by
  unfold resolve at failed ⊢
  simp only at failed ⊢
  split
  · rfl
  · split
    · rfl
    · split
      · rfl
      · simp_all

theorem resolve_of_lookup {cached : CachedClass}
    (looked : cache.lookup sources (ClassName.ofString name) = some cached) :
    (cache.resolve sources name).1 = .ok cached := by
  unfold resolve
  simp only [looked]

end ClassCache

/-! ## Classes that come late -/

/-- The loaders of a process, the bootstrap source and a cache. -/
structure World where
  forest : Forest
  bootstrap : Option ClassTable
  cache : ClassCache

/-- What is done with a world: a class is resolved as seen from a loader, or given to one, where
none is the bootstrap loader. -/
inductive Use
  | resolve (number : Option Nat) (name : String)
  | define (number : Option Nat) (name : String) (bytes : Bytes)

namespace World

def start (forest : Forest) (bootstrap : Option ClassTable) : World :=
  ⟨forest, bootstrap, ClassCache.empty⟩

def sources (world : World) (number : Option Nat) : Sources :=
  world.forest.sources world.bootstrap number

def resolve (world : World) (number : Option Nat) (name : String) :
    Except ResolveError CachedClass :=
  (world.cache.resolve (world.sources number) name).1

def step (world : World) : Use → World
  | .resolve number name =>
    { world with cache := (world.cache.resolve (world.sources number) name).2 }
  | .define none name bytes =>
    { world with bootstrap := world.bootstrap.map (·.insert (slashed name) bytes) }
  | .define (some number) name bytes =>
    { world with forest := world.forest.define number name bytes }

def run (world : World) (uses : List Use) : World := uses.foldl step world

/-- The entry that a use gives for a class. -/
def answer? (world : World) (name : ClassName) : Use → Option CachedClass
  | .resolve number other =>
    if ClassName.ofString other = name then (world.resolve number other).toOption else none
  | .define .. => none

/-- All entries given for a class, in the order they were asked for. -/
def answers (name : ClassName) : World → List Use → List CachedClass
  | _, [] => []
  | world, use :: uses => (world.answer? name use).toList ++ answers name (world.step use) uses

/-- Whether some loader of that key has a class, or the bootstrap source. -/
def Has (world : World) (name : ClassName) : Option LoaderKey → Prop
  | none => ∃ bytes, world.bootstrap.bind (·[name.internal]?) = some bytes
  | some key => ∃ (number : Nat) (given : Loader × List Nat),
      world.forest.loaders[number]? = some given ∧ given.1.key = key ∧
        ∃ bytes, given.1.classes[name.internal]? = some bytes

/-- Every entry is for a class that its owner has. -/
structure Sane (world : World) : Prop where
  standing : world.cache.Standing
  has : ∀ {owner name cached}, world.cache.held owner name = some cached → world.Has ⟨name⟩ owner

theorem start_sane (forest : Forest) (bootstrap : Option ClassTable) :
    (start forest bootstrap).Sane := by
  refine ⟨ClassCache.empty_standing, ?_⟩
  intro owner name cached known
  simp [start] at known

variable {world : World} {name : ClassName}

/-- Where a class is located there is one. -/
theorem has_of_locate {number : Option Nat} {owner : Option LoaderKey} {bytes : Bytes}
    (located : (world.sources number).locate name = some (owner, bytes)) :
    world.Has name owner := by
  cases Sources.locate_eq_some.1 located with
  | bootstrap has => exact ⟨bytes, has⟩
  | @loader before after loader _ _ chain _ has =>
    have among : loader ∈ (world.sources number).chain := by
      rw [chain]
      simp
    obtain ⟨place, _, known⟩ := List.mem_filterMap.1 among
    obtain ⟨given, found, rfl⟩ := Option.map_eq_some_iff.1 known
    exact ⟨place, given, found, rfl, bytes, has⟩

theorem known_insert {classes : ClassTable} {own : String} (other : String) (bytes : Bytes)
    (known : ∃ given, classes[own]? = some given) :
    ∃ given, (classes.insert other bytes)[own]? = some given := by
  rw [Std.TreeMap.getElem?_insert]
  split
  · exact ⟨bytes, rfl⟩
  · exact known

/-- Nobody loses a class. -/
theorem has_step {owner : Option LoaderKey} (has : world.Has name owner) (use : Use) :
    (world.step use).Has name owner := by
  match use, owner with
  | .resolve _ _, none | .resolve _ _, some _ => exact has
  | .define none _ _, some _ | .define (some _) _ _, none => exact has
  | .define none other bytes, none =>
    obtain ⟨given, found⟩ := has
    obtain ⟨classes, source, known⟩ := Option.bind_eq_some_iff.1 found
    obtain ⟨later, known⟩ := known_insert (slashed other) bytes ⟨given, known⟩
    refine ⟨later, ?_⟩
    simp only [step, source]
    exact known
  | .define (some number) other bytes, some key =>
    obtain ⟨place, given, found, own, known⟩ := has
    by_cases here : number = place
    · refine ⟨place, ({ given.1 with
        classes := given.1.classes.insert (slashed other) bytes }, given.2), ?_, own,
        known_insert _ _ known⟩
      simp [step, Forest.define, Array.getElem?_modify, here, found]
    · refine ⟨place, given, ?_, own, known⟩
      simp [step, Forest.define, Array.getElem?_modify, here, found]

/-- The places of a name are the same all along. -/
theorem places_step (world : World) (use : Use) (number : Option Nat) :
    ((world.step use).sources number).places = (world.sources number).places := by
  match use with
  | .resolve _ _ | .define none _ _ => rfl
  | .define (some given) other bytes =>
    have line : (number.map (world.forest.define given other bytes).line).getD [] =
        (number.map world.forest.line).getD [] := by
      cases number with
      | none => rfl
      | some number => exact Forest.line_define given other bytes number
    have keys (i : Nat) : ((world.forest.define given other bytes).loaders[i]?).map
        (fun loader => some loader.1.key) =
          (world.forest.loaders[i]?).map fun loader => some loader.1.key := by
      rw [Forest.define, Array.getElem?_modify]
      by_cases here : given = i
      · rw [if_pos here]
        cases world.forest.loaders[i]? <;> rfl
      · rw [if_neg here]
    simp only [Sources.places, sources, Forest.sources, World.step, line, List.map_filterMap,
      Option.map_map, Function.comp_def, keys]

/-- What resolving a class does: the place that answers is set, under an entry that is there. -/
theorem Sane.lookup_of_resolve (sane : world.Sane) {number : Option Nat} {other : String}
    {cached : CachedClass} (done : world.resolve number other = .ok cached) :
    (world.step (.resolve number other)).cache.lookup (world.sources number)
      (ClassName.ofString other) = some cached := by
  rcases ClassCache.resolve_eq_ok done with
    ⟨looked, same⟩ | ⟨missed, ⟨bytes, located⟩, entry, stored⟩
  · rw [World.step, same]
    exact looked
  · have nothing : ∀ place ∈ (world.sources number).places,
        world.cache.held place (ClassName.ofString other).internal = none := by
      rw [ClassCache.lookup_eq_findSome?] at missed
      exact List.findSome?_eq_none_iff.1 missed
    have standing := sane.standing.store (ClassName.ofString other) cached.info
    rw [World.step, stored]
    refine standing.lookup_eq_some.2 ⟨Sources.mem_places_of_locate located, ?_, ?_⟩
    · rw [ClassCache.held_store, if_pos ⟨rfl, rfl⟩, ← entry]
    · intro place higher
      have elsewhere : place ≠ cached.info.loader := by
        rintro rfl
        exact Sources.not_mem_higher _ _ higher
      rw [ClassCache.held_store, if_neg fun own => elsewhere own.1]
      exact nothing place ((List.takeWhile_prefix _).subset higher)

/-- A use adds at most the entry that it gives. -/
theorem held_step {owner : Option LoaderKey} {own : String} {cached : CachedClass} (use : Use) :
    (world.step use).cache.held owner own = some cached →
      world.cache.held owner own = some cached ∨
        world.answer? ⟨own⟩ use = some cached ∧ cached.info.loader = owner ∧
          world.Has ⟨own⟩ owner := by
  intro known
  match use with
  | .define none _ _ | .define (some _) _ _ => exact .inl known
  | .resolve number other =>
    rw [World.step] at known
    cases outcome : (world.cache.resolve (world.sources number) other).1 with
    | error cause =>
      rw [ClassCache.resolve_failed outcome] at known
      exact .inl known
    | ok given =>
      rcases ClassCache.resolve_eq_ok outcome with
        ⟨_, same⟩ | ⟨_, ⟨bytes, located⟩, entry, stored⟩
      · rw [same] at known
        exact .inl known
      · rw [stored, ClassCache.held_store, ← entry] at known
        split at known
        · rename_i place
          obtain ⟨rfl, rfl⟩ := place
          cases known
          refine .inr ⟨?_, rfl, has_of_locate located⟩
          rw [answer?, if_pos rfl, resolve, outcome]
          rfl
        · exact .inl known

theorem Sane.step (sane : world.Sane) (use : Use) : (world.step use).Sane := by
  refine ⟨⟨?_⟩, ?_⟩
  · intro owner own cached known
    rcases held_step use known with before | ⟨_, belongs, _⟩
    · exact sane.standing.belongs before
    · exact belongs
  · intro owner own cached known
    refine has_step ?_ use
    rcases held_step use known with before | ⟨_, _, has⟩
    · exact sane.has before
    · exact has

/-- An entry stays. -/
theorem step_holds {owner : Option LoaderKey} {own : String}
    {cached : CachedClass} (known : world.cache.held owner own = some cached) (use : Use) :
    (world.step use).cache.held owner own = some cached := by
  match use with
  | .define none _ _ | .define (some _) _ _ => exact known
  | .resolve number other =>
    rw [World.step]
    cases outcome : (world.cache.resolve (world.sources number) other).1 with
    | error cause =>
      rw [ClassCache.resolve_failed outcome]
      exact known
    | ok given =>
      rcases ClassCache.resolve_eq_ok outcome with
        ⟨_, same⟩ | ⟨missed, ⟨bytes, located⟩, _, stored⟩
      · rw [same]
        exact known
      · rw [stored, ClassCache.held_store, if_neg, known]
        rintro ⟨rfl, rfl⟩
        rw [ClassCache.lookup_eq_findSome?, List.findSome?_eq_none_iff] at missed
        rw [missed _ (Sources.mem_places_of_locate located)] at known
        cases known

/-- What is answered is an entry, under the loader that it belongs to. -/
theorem Sane.held_of_answer (sane : world.Sane) {use : Use} {cached : CachedClass}
    (answered : world.answer? name use = some cached) :
    (world.step use).cache.held cached.info.loader name.internal = some cached := by
  match use with
  | .define .. => cases answered
  | .resolve number other =>
    rw [answer?] at answered
    split at answered
    · rename_i same
      cases outcome : world.resolve number other with
      | error cause =>
        rw [outcome] at answered
        cases answered
      | ok given =>
        rw [outcome] at answered
        cases answered
        have looked := sane.lookup_of_resolve outcome
        rw [same, (sane.step (.resolve number other)).standing.lookup_eq_some] at looked
        exact looked.2.1
    · cases answered

/-! ## Runs -/

theorem Sane.run (sane : world.Sane) (uses : List Use) : (world.run uses).Sane := by
  induction uses generalizing world with
  | nil => exact sane
  | cons use uses ih => exact ih (sane.step use)

theorem places_run (world : World) (uses : List Use) (number : Option Nat) :
    ((world.run uses).sources number).places = (world.sources number).places := by
  induction uses generalizing world with
  | nil => rfl
  | cons use uses ih => exact (ih (world.step use)).trans (world.places_step use number)

theorem higher_run (world : World) (uses : List Use) (number : Option Nat)
    (owner : Option LoaderKey) : ((world.run uses).sources number).higher owner =
      (world.sources number).higher owner := by
  rw [Sources.higher, places_run, Sources.higher]

/-- **Entries never change**: what is kept for a class of a loader is kept from then on. -/
theorem run_holds {owner : Option LoaderKey} {own : String}
    {cached : CachedClass} (known : world.cache.held owner own = some cached) (uses : List Use) :
    (world.run uses).cache.held owner own = some cached := by
  induction uses generalizing world with
  | nil => exact known
  | cons use uses ih => exact ih (step_holds known use)

/-- The entries after a run are those from before and those that were given. -/
theorem Sane.held_run (sane : world.Sane) (uses : List Use) {owner : Option LoaderKey}
    {cached : CachedClass} : (world.run uses).cache.held owner name.internal = some cached ↔
      world.cache.held owner name.internal = some cached ∨
        cached ∈ world.answers name uses ∧ cached.info.loader = owner := by
  induction uses generalizing world with
  | nil => simp [World.run, answers]
  | cons use uses ih =>
    have rest := ih (sane.step use)
    rw [answers, List.mem_append, Option.mem_toList]
    refine rest.trans ⟨?_, ?_⟩
    · rintro (known | ⟨answered, belongs⟩)
      · rcases held_step use known with before | ⟨answered, belongs, _⟩
        · exact .inl before
        · exact .inr ⟨.inl answered, belongs⟩
      · exact .inr ⟨.inr answered, belongs⟩
    · rintro (known | ⟨answered | answered, rfl⟩)
      · exact .inl (step_holds known use)
      · exact .inl (sane.held_of_answer answered)
      · exact .inr ⟨answered, rfl⟩

/-- After a run a name is answered as before, or by an entry that was given for it since then and
that belongs higher. -/
theorem Sane.lookup_run (sane : world.Sane) {number : Option Nat} {cached : CachedClass}
    (looked : world.cache.lookup (world.sources number) name = some cached) (uses : List Use) :
    ∃ later, (world.run uses).cache.lookup ((world.run uses).sources number) name = some later ∧
      (later = cached ∧ (∀ given ∈ world.answers name uses,
          given.info.loader ∉ (world.sources number).higher cached.info.loader) ∨
        later ∈ world.answers name uses ∧
          later.info.loader ∈ (world.sources number).higher cached.info.loader) := by
  have last := sane.run uses
  obtain ⟨seen, known, nothing⟩ := sane.standing.lookup_eq_some.1 looked
  have kept := run_holds known uses
  cases answer : (world.run uses).cache.lookup ((world.run uses).sources number) name with
  | none =>
    rw [ClassCache.lookup_eq_findSome?, List.findSome?_eq_none_iff, places_run] at answer
    rw [answer _ seen] at kept
    cases kept
  | some later =>
    refine ⟨later, rfl, ?_⟩
    rw [last.standing.lookup_eq_some, higher_run, places_run] at answer
    obtain ⟨seen', known', nothing'⟩ := answer
    -- Entries are never dropped, so a later answer can only come from higher up the line.
    by_cases own : later.info.loader = cached.info.loader
    · rw [own, kept] at known'
      cases known'
      refine .inl ⟨rfl, ?_⟩
      intro given answered up
      have held := (sane.held_run uses).2 (.inr ⟨answered, rfl⟩)
      rw [nothing' _ up] at held
      cases held
    · have up : later.info.loader ∈ (world.sources number).higher cached.info.loader := by
        refine Sources.mem_higher_of_ne seen' own ?_
        intro lower
        rw [nothing' _ lower] at kept
        cases kept
      rcases (sane.held_run uses).1 known' with before | ⟨answered, _⟩
      · rw [nothing _ up] at before
        cases before
      · exact .inr ⟨answered, up⟩

/-- **A name keeps its entry until a class above its owner is given.**  Once a class is resolved
it can be resolved ever after, to the same entry or to one that belongs to a place above.  It is
the same entry exactly if nothing that was given for the name since then belongs above, and so it
is as long as no place above has the class. -/
theorem resolve_stays (forest : Forest) (bootstrap : Option ClassTable)
    (history between : List Use) (number : Option Nat) (name name' : String) {cached : CachedClass}
    (first : ((start forest bootstrap).run history).resolve number name = .ok cached)
    (same : ClassName.ofString name' = ClassName.ofString name) :
    let settled := (start forest bootstrap).run (history ++ [.resolve number name])
    let above := ((start forest bootstrap).sources number).higher cached.info.loader
    ∃ later, (settled.run between).resolve number name' = .ok later ∧
      (later = cached ∨ later.info.loader ∈ above) ∧
      (later = cached ↔ ∀ given ∈ settled.answers (ClassName.ofString name) between,
        given.info.loader ∉ above) ∧
      ((∀ place ∈ above, ¬ (settled.run between).Has (ClassName.ofString name) place) →
        later = cached) := by
  intro settled above
  have sane : settled.Sane := (start_sane forest bootstrap).run _
  have looked : settled.cache.lookup (settled.sources number) (ClassName.ofString name) =
      some cached := by
    have begun := ((start_sane forest bootstrap).run history).lookup_of_resolve first
    have settling : settled = ((start forest bootstrap).run history).step (.resolve number name) :=
      List.foldl_concat ..
    rwa [settling]
  have places : (settled.sources number).higher cached.info.loader = above := higher_run ..
  obtain ⟨later, answer, stays⟩ := sane.lookup_run looked between
  rw [places] at stays
  have done : (settled.run between).resolve number name' = .ok later :=
    ClassCache.resolve_of_lookup (same ▸ answer)
  refine ⟨later, done, ?_⟩
  rcases stays with ⟨rfl, lower⟩ | ⟨answered, up⟩
  · exact ⟨.inl rfl, iff_of_true rfl lower, fun _ => rfl⟩
  · have changed : later ≠ cached := by
      rintro rfl
      exact Sources.not_mem_higher _ _ up
    refine ⟨.inr up, iff_of_false changed fun lower => lower later answered up, ?_⟩
    intro free
    have known := ((sane.run between).standing.lookup_eq_some.1 answer).2.1
    exact absurd ((sane.run between).has known) (free _ up)

/-- Two loaders, one the parent of the other. -/
def Sample.family : Forest := ((Forest.empty.declare 1 none).2.declare 2 (some 0)).2

/-- A class `A` without superclass and members. -/
def Sample.bare : Bytes :=
  [0xCA, 0xFE, 0xBA, 0xBE, 0, 0, 0, 52, 0, 3, 1, 0, 1, 65, 7, 0, 1, 0, 33, 0, 2, 0, 0, 0, 0, 0, 0,
    0, 0, 0, 0]

/-- The class comes to the parent when the child has an entry, and is resolved from the child. -/
theorem resolve_stays_family :
    let history := [.define (some 1) "A" Sample.bare]
    let between := [.define (some 0) "A" Sample.bare, .resolve (some 1) "A"]
    let cached : CachedClass := ⟨0, ⟨⟨"A"⟩, none, [], false, [], [], some ⟨2, 0⟩⟩⟩
    ((start Sample.family none).run history).resolve (some 1) "A" = .ok cached ∧
      ClassName.ofString "A" = ClassName.ofString "A" ∧
      (((start Sample.family none).run (history ++ [.resolve (some 1) "A"])).run
        between).resolve (some 1) "A" = .ok cached := by
  intro history between cached
  have first : ((start Sample.family none).run history).resolve (some 1) "A" = .ok cached := by
    decide +kernel
  obtain ⟨later, done, _, ⟨_, stays⟩, _⟩ :=
    resolve_stays Sample.family none history between (some 1) "A" "A" first rfl
  obtain rfl := stays (by decide +kernel)
  exact ⟨first, rfl, done⟩

/-- A class that comes to the parent, which did not have it, takes the name of the child's class
over when it is resolved. -/
theorem late_class_takes_over :
    let world := (start Sample.family none).run [.define (some 1) "A" Sample.bare]
    let settled := world.run [.resolve (some 1) "A"]
    let later := settled.run [.define (some 0) "A" Sample.bare, .resolve (some 0) "A"]
    (Sample.family.loaders[1]?).map (·.1.classes["A"]?) = some none ∧
      world.resolve (some 1) "A" =
        .ok ⟨0, ⟨⟨"A"⟩, none, [], false, [], [], some ⟨2, 0⟩⟩⟩ ∧
      (settled.forest.loaders[0]?).map (·.1.classes["A"]?) = some none ∧
      later.resolve (some 1) "A" =
        .ok ⟨1, ⟨⟨"A"⟩, none, [], false, [], [], some ⟨1, 0⟩⟩⟩ := by
  decide +kernel

end World

end ClassWeave
