/-
# ClassWeave.Proofs.SupertypeDistances -- supertypes come nearest first

The walk over supertypes keeps one queue, and this queue is always two layers: names that
are some number of steps away, and behind them names that are one step further
(`Sources.Layered`).  All that is nearer has been found by then.  Taking the first name that
is new keeps this (`Sources.Layered.step`), so by the end of the walk every supertype has
been found once, in the order of distance (`Sources.Gathers.nearestFirst`).

Nothing here needs the supertypes to be free of cycles.  A name is followed only once, which
is why the walk ends (`Sources.collect_tells`).
-/
import ClassWeave.Proofs.CacheHistory
import Mathlib.Data.List.Nodup
import Mathlib.Data.List.TakeWhile
import Mathlib.Data.Nat.Find
import Mathlib.Order.Bounds.Basic

set_option autoImplicit false

namespace ClassWeave

namespace Sources

/-! ## Distances -/

/-- A name is met after so many steps: the names to start from after one, and what a class names as
supertypes one step after the class. -/
inductive Reaches (sources : Sources) (start : List String) : Nat → String → Prop
  | direct {name : String} (named : name ∈ start) : Reaches sources start 1 name
  | further {n : Nat} {lower name : String} (reaches : Reaches sources start n lower)
      (named : name ∈ sources.above lower) : Reaches sources start (n + 1) name

/-- The least number of steps to a name. -/
def Distance (sources : Sources) (start : List String) (name : String) (n : Nat) : Prop :=
  IsLeast { m | sources.Reaches start m name } n

/-- There is no way to the second name that is shorter than all ways to the first. -/
def NoFarther (sources : Sources) (start : List String) (near far : String) : Prop :=
  ∀ n, sources.Reaches start n far → ∃ m ≤ n, sources.Reaches start m near

/-- All that can be reached, each name once and the nearest first. -/
structure NearestFirst (sources : Sources) (start names : List String) : Prop where
  nodup : names.Nodup
  mem_iff : ∀ name, name ∈ names ↔ ∃ n, sources.Reaches start n name
  ordered : names.Pairwise (sources.NoFarther start)

variable {sources : Sources} {start found near far : List String} {level : Nat}

theorem Reaches.pos {n : Nat} {name : String} (reaches : sources.Reaches start n name) : 0 < n := by
  cases reaches <;> exact Nat.succ_pos _

theorem Reaches.exists_distance {n : Nat} {name : String} (reaches : sources.Reaches start n name) :
    ∃ m, sources.Distance start name m := by
  classical
  have some_ : ∃ m, sources.Reaches start m name := ⟨n, reaches⟩
  exact ⟨Nat.find some_, Nat.find_spec some_, fun m shorter => Nat.find_min' some_ shorter⟩

theorem NoFarther.distances {near far : String} (order : sources.NoFarther start near far)
    {m n : Nat} (first : sources.Distance start near m) (second : sources.Distance start far n) :
    m ≤ n := by
  obtain ⟨k, shorter, reaches⟩ := order n second.1
  exact Nat.le_trans (first.2 reaches) shorter

/-! ## Two layers -/

/-- What the walk has found and what is waiting.  The names of `near` are up to `level` steps away and
those of `far` up to one step more; all that is nearer has been found, and all supertypes of what
was found are found or waiting. -/
structure Layered (sources : Sources) (start found : List String) (level : Nat)
    (near far : List String) : Prop where
  pos : 0 < level
  nodup : found.Nodup
  reached : ∀ name, name ∈ found ∨ name ∈ near → ∃ n ≤ level, sources.Reaches start n name
  farther : ∀ name ∈ far, ∃ n ≤ level + 1, sources.Reaches start n name
  complete : ∀ n name, n ≤ level → sources.Reaches start n name →
    name ∈ found ∨ n = level ∧ name ∈ near
  closed : ∀ lower ∈ found, ∀ name ∈ sources.above lower,
    name ∈ found ∨ name ∈ near ∨ name ∈ far
  ordered : found.reverse.Pairwise (sources.NoFarther start)

theorem layered_start (sources : Sources) (start : List String) :
    sources.Layered start [] 1 start [] where
  pos := Nat.one_pos
  nodup := List.nodup_nil
  reached name among := ⟨1, Nat.le_refl 1, .direct (among.resolve_left List.not_mem_nil)⟩
  farther := List.forall_mem_nil _
  complete n name short reaches := by
    cases reaches with
    | direct named => exact .inr ⟨rfl, named⟩
    | further reaches =>
      have := reaches.pos
      omega
  closed := List.forall_mem_nil _
  ordered := List.Pairwise.nil

namespace Layered

/-- Names that were found already need not wait. -/
theorem skip {stale rest : List String} (old : ∀ name ∈ stale, name ∈ found)
    (layered : sources.Layered start found level (stale ++ rest) far) :
    sources.Layered start found level rest far where
  pos := layered.pos
  nodup := layered.nodup
  reached name among := layered.reached name (among.imp_right (List.mem_append_right stale))
  farther := layered.farther
  complete n name short reaches := by
    rcases layered.complete n name short reaches with known | ⟨last, waits⟩
    · exact .inl known
    · exact (List.mem_append.1 waits).imp (old name) fun waits => ⟨last, waits⟩
  closed lower known name named := by
    rcases layered.closed lower known name named with known | waits | waits
    · exact .inl known
    · exact (List.mem_append.1 waits).imp (old name) .inl
    · exact .inr (.inr waits)
  ordered := layered.ordered

/-- When the near names are used up the far ones are next. -/
theorem advance (layered : sources.Layered start found level [] far) :
    sources.Layered start found (level + 1) far [] where
  pos := Nat.succ_pos level
  nodup := layered.nodup
  reached name among := by
    rcases among with known | waits
    · obtain ⟨n, short, reaches⟩ := layered.reached name (.inl known)
      exact ⟨n, Nat.le_succ_of_le short, reaches⟩
    · exact layered.farther name waits
  farther := List.forall_mem_nil _
  complete n name short reaches := by
    have known {n : Nat} {name : String} (short : n ≤ level)
        (reaches : sources.Reaches start n name) : name ∈ found :=
      (layered.complete n name short reaches).resolve_right fun waits => List.not_mem_nil waits.2
    rcases Nat.le_succ_iff.1 short with short | rfl
    · exact .inl (known short reaches)
    · cases reaches with
      | direct => exact absurd layered.pos (Nat.lt_irrefl 0)
      | further reaches named =>
        -- One step up from a name that is found at the level itself: this is what waited.
        rcases layered.closed _ (known (Nat.le_refl level) reaches) name named with old | none_ | waits
        · exact .inl old
        · exact absurd none_ List.not_mem_nil
        · exact .inr ⟨rfl, waits⟩
  closed lower known name named := by
    rcases layered.closed lower known name named with known | none_ | waits
    · exact .inl known
    · exact absurd none_ List.not_mem_nil
    · exact .inr (.inl waits)
  ordered := layered.ordered

/-- A new name is found, and its supertypes wait at the end. -/
theorem take {name : String} (fresh : name ∉ found)
    (layered : sources.Layered start found level (name :: near) far) :
    sources.Layered start (name :: found) level near (far ++ sources.above name) where
  pos := layered.pos
  nodup := List.nodup_cons.2 ⟨fresh, layered.nodup⟩
  reached other among := by
    refine layered.reached other ?_
    rcases among with known | waits
    · rcases List.mem_cons.1 known with rfl | known
      · exact .inr List.mem_cons_self
      · exact .inl known
    · exact .inr (List.mem_cons_of_mem name waits)
  farther other among := by
    rcases List.mem_append.1 among with waits | named
    · exact layered.farther other waits
    · obtain ⟨n, short, reaches⟩ := layered.reached name (.inr List.mem_cons_self)
      exact ⟨n + 1, Nat.succ_le_succ short, reaches.further named⟩
  complete n other short reaches := by
    rcases layered.complete n other short reaches with known | ⟨last, waits⟩
    · exact .inl (List.mem_cons_of_mem name known)
    · rcases List.mem_cons.1 waits with rfl | waits
      · exact .inl List.mem_cons_self
      · exact .inr ⟨last, waits⟩
  closed lower known other named := by
    rcases List.mem_cons.1 known with rfl | known
    · exact .inr (.inr (List.mem_append_right far named))
    · rcases layered.closed lower known other named with known | waits | waits
      · exact .inl (List.mem_cons_of_mem name known)
      · rcases List.mem_cons.1 waits with rfl | waits
        · exact .inl List.mem_cons_self
        · exact .inr (.inl waits)
      · exact .inr (.inr (List.mem_append_left _ waits))
  ordered := by
    rw [List.reverse_cons, List.pairwise_append]
    refine ⟨layered.ordered, List.pairwise_singleton _ _, ?_⟩
    rintro other known last among n reaches
    obtain rfl := List.mem_singleton.1 among
    -- The name is new, so every way to it is at least as long as the level.
    have long : level ≤ n := by
      by_contra short
      rcases layered.complete n last (by omega) reaches with known | ⟨same, _⟩
      · exact fresh known
      · omega
    obtain ⟨m, short, reaches⟩ := layered.reached other (.inl (List.mem_reverse.1 known))
    exact ⟨m, Nat.le_trans short long, reaches⟩

theorem mem_of_dropWhile {queue rest : List String} (next : queue.dropWhile found.contains = rest) :
    ∃ stale, queue = stale ++ rest ∧ ∀ name ∈ stale, name ∈ found := by
  refine ⟨queue.takeWhile found.contains, ?_, fun name among => ?_⟩
  · rw [← next, List.takeWhile_append_dropWhile]
  · simpa using List.all_eq_true.1 List.all_takeWhile name among

/-- **A step of the walk keeps two layers.** -/
theorem step {name : String} {rest : List String}
    (layered : sources.Layered start found level near far)
    (next : (near ++ far).dropWhile found.contains = name :: rest) :
    ∃ level' near' far', sources.Layered start (name :: found) level' near' far' ∧
      rest ++ sources.above name = near' ++ far' := by
  have fresh : name ∉ found := by
    have some_ : (near ++ far).dropWhile found.contains ≠ [] := by simp [next]
    simpa [next] using List.head_dropWhile_not found.contains some_
  rw [List.dropWhile_append] at next
  split at next
  · rename_i none_
    obtain ⟨stale, rfl, old⟩ := mem_of_dropWhile (List.isEmpty_iff.1 none_)
    obtain ⟨stale', rfl, old'⟩ := mem_of_dropWhile next
    have advanced := ((layered.skip old).advance.skip old').take fresh
    exact ⟨level + 1, rest, _, advanced, by simp⟩
  · cases first : near.dropWhile found.contains with
    | nil => simp_all
    | cons head near' =>
      rw [first, List.cons_append, List.cons.injEq] at next
      obtain ⟨rfl, rfl⟩ := next
      obtain ⟨stale, rfl, old⟩ := mem_of_dropWhile first
      exact ⟨level, near', _, (layered.skip old).take fresh, by simp⟩

/-- At the end of the walk nothing that can be reached is left. -/
theorem nearestFirst (layered : sources.Layered start found level near far)
    (stale : (near ++ far).dropWhile found.contains = []) :
    sources.NearestFirst start found.reverse where
  nodup := List.nodup_reverse.2 layered.nodup
  mem_iff name := by
    have found_ {name : String} (waits : name ∈ near ∨ name ∈ far) : name ∈ found := by
      have none_ := List.dropWhile_eq_nil_iff.1 stale name (List.mem_append.2 waits)
      simpa using none_
    rw [List.mem_reverse]
    constructor
    · intro known
      obtain ⟨n, _, reaches⟩ := layered.reached name (.inl known)
      exact ⟨n, reaches⟩
    · rintro ⟨n, reaches⟩
      induction reaches with
      | direct named =>
        rcases layered.complete 1 _ layered.pos (.direct named) with known | ⟨_, waits⟩
        · exact known
        · exact found_ (.inl waits)
      | further _ named ih =>
        rcases layered.closed _ ih _ named with known | waits
        · exact known
        · exact found_ waits
  ordered := layered.ordered

end Layered

theorem Gathers.nearestFirst {queue names : List String}
    (gathers : sources.Gathers found queue names)
    (layered : sources.Layered start found level near far) (waiting : queue = near ++ far) :
    sources.NearestFirst start names := by
  induction gathers generalizing level near far with
  | done stale => exact layered.nearestFirst (waiting ▸ stale)
  | step next _ ih =>
    obtain ⟨_, _, _, layered', waiting'⟩ := layered.step (waiting ▸ next)
    exact ih layered' waiting'

/-! ## The answers of a cache -/

section Answers

variable {forest : Forest} {bootstrap : Option ClassTable}
  (resolves : ∀ name, Tells forest bootstrap (sources.resolve name) fun outcome =>
    outcome.map CachedClass.info = sources.answer name)

include resolves

/-- More steps than the walk is given would not change what it comes to. -/
theorem collect_settles (info : ClassInfo) {cache : ClassCache} {fuel : Nat}
    (enough : sources.stepBound cache info ≤ fuel) :
    Tells forest bootstrap (sources.collect fuel [] info.supertypes)
      (sources.Gathers [] info.supertypes) := by
  have few := lt_stepBound sources cache info
  refine collect_tells resolves (List.subset_append_right _ _) fuel List.nodup_nil
    (List.nil_subset _) (List.subset_append_left _ _) ?_
  rw [List.length_nil]
  omega

/-- A class is a subtype of what it is itself and of its supertypes, in either spelling. -/
theorem isSubtype_tells (info : ClassInfo) (name : String) :
    Tells forest bootstrap (sources.isSubtype info name) fun answer =>
      ∀ names, sources.Gathers [] info.supertypes names →
        (answer = true ↔ info.name = ClassName.ofString name ∨
          ∃ other ∈ names, slashed other = slashed name) := by
  unfold isSubtype
  simp only
  split
  · rename_i own
    exact .pure fun names _ => iff_of_true rfl (.inl own)
  · rename_i other
    refine (supertypes_tells resolves info).bind fun found gathers => .pure fun names gathers' => ?_
    obtain rfl := gathers.unique gathers'
    rw [or_iff_right other]
    simp [ClassName.ofString]

end Answers

/-- **The supertypes of a class as a cache lists them**, whatever the cache was used for before and
whatever cycles the classes form.  The walk comes to its end, and more steps would not change it.
The names are those that are reached from the supertypes the class names itself, through classes
that are to be had; each is there once, and none comes before one that is nearer.  The class is a
subtype of what it is itself and of these, in either spelling. -/
theorem supertypes_nearestFirst {forest : Forest} (rooted : forest.Rooted) (apart : forest.Apart)
    (bootstrap : Option ClassTable) (number : Option Nat) (history : List ClassCache.Call)
    (info : ClassInfo) (name : String) :
    let sources := forest.sources bootstrap number
    let cache := ClassCache.run forest bootstrap history ClassCache.empty
    let names := (sources.supertypes info false cache).1
    sources.Gathers [] info.supertypes names ∧
    (∀ fuel, sources.stepBound cache info ≤ fuel →
      (sources.collect fuel [] info.supertypes cache).1 = names) ∧
    names.Nodup ∧
    (∀ other, other ∈ names ↔ ∃ n, sources.Reaches info.supertypes n other) ∧
    (names.Pairwise fun near far => ∃ m n, sources.Distance info.supertypes near m ∧
      sources.Distance info.supertypes far n ∧ m ≤ n) ∧
    ((sources.isSubtype info name cache).1 = true ↔
      info.name = ClassName.ofString name ∨ ∃ other ∈ names, slashed other = slashed name) := by
  intro sources cache names
  have sound : cache.Sound forest bootstrap :=
    ClassCache.run_sound rooted apart history ClassCache.empty_sound
  have resolves : ∀ name, Tells forest bootstrap (sources.resolve name) fun outcome =>
      outcome.map CachedClass.info = sources.answer name := resolve_tells rooted apart number
  have gathers : sources.Gathers [] info.supertypes names :=
    (supertypes_tells resolves info cache sound).1
  have settled : sources.NearestFirst info.supertypes names :=
    gathers.nearestFirst (layered_start sources info.supertypes) (by simp)
  refine ⟨gathers, fun fuel enough => ?_, settled.nodup, settled.mem_iff, ?_,
    (isSubtype_tells resolves info name cache sound).1 names gathers⟩
  · exact (collect_settles resolves info enough cache sound).1.unique gathers
  · refine settled.ordered.imp_of_mem fun {near far} first second order => ?_
    obtain ⟨_, reaches⟩ := (settled.mem_iff near).1 first
    obtain ⟨_, reaches'⟩ := (settled.mem_iff far).1 second
    obtain ⟨m, least⟩ := reaches.exists_distance
    obtain ⟨n, least'⟩ := reaches'.exists_distance
    exact ⟨m, n, least, least', order.distances least least'⟩

end Sources

/-- A class with a superclass and the interface `p/I`. -/
def Sample.knot (name top : UInt8) : Bytes :=
  [0xCA, 0xFE, 0xBA, 0xBE, 0, 0, 0, 52, 0, 7, 1, 0, 1, name, 7, 0, 1, 1, 0, 1, top, 7, 0, 3, 1, 0, 3,
    112, 47, 73, 7, 0, 5, 0, 33, 0, 2, 0, 4, 0, 1, 0, 6, 0, 0, 0, 0, 0, 0]

/-- Two classes `A` and `B`, each the superclass of the other, with an interface that is not there. -/
def Sample.cycle : ClassTable := ((∅ : ClassTable).insert "A" (knot 65 66)).insert "B" (knot 66 65)

/-- The class is among its own supertypes, and the interface is there once. -/
theorem Sources.supertypes_nearestFirst_cycle :
    let sources := Forest.empty.sources (some Sample.cycle) none
    let info : ClassInfo := ⟨⟨"A"⟩, some "B", ["p/I"], false, [], [], none⟩
    let names := (sources.supertypes info false ClassCache.empty).1
    Forest.empty.Rooted ∧ Forest.empty.Apart ∧ sources.answer "A" = .ok info ∧
      names = ["B", "p/I", "A"] ∧ names.Nodup ∧
      (∃ n, sources.Reaches info.supertypes n "A") ∧
      (names.Pairwise fun near far => ∃ m n, sources.Distance info.supertypes near m ∧
        sources.Distance info.supertypes far n ∧ m ≤ n) ∧
      (sources.isSubtype info "p.I" ClassCache.empty).1 = true := by
  intro sources info names
  have listed : names = ["B", "p/I", "A"] := by decide +kernel
  have among {other : String} (known : other ∈ ["B", "p/I", "A"]) : other ∈ names := listed ▸ known
  obtain ⟨_, _, nodup, mem_iff, ordered, subtype⟩ := supertypes_nearestFirst Forest.rooted_empty
    Forest.apart_empty (some Sample.cycle) none [] info "p.I"
  exact ⟨Forest.rooted_empty, Forest.apart_empty, by decide +kernel, listed, nodup,
    (mem_iff "A").1 (among (by simp)), ordered,
    subtype.2 (.inr ⟨"p/I", among (by simp), by decide +kernel⟩)⟩

end ClassWeave
