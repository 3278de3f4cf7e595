/-
# ClassWeave.Proofs.CacheHistory -- a cache never changes an answer

A cache is used by calls that resolve a class or drop a loader.  Whatever calls came
before, every answer is the one that an empty cache gives, and so are the answers about
supertypes and common superclasses and the outcome of rewriting a class
(`ClassCache.history_faithful`).  Every step keeps the cache sound, and from there on the
answers are those of `Sources.answer`.
-/
import ClassWeave.Proofs.SupertypeWalks
import ClassWeave.Transform

set_option autoImplicit false

namespace ClassWeave

/-! ## Rewriting -/

section Rewriting

variable {forest : Forest} {bootstrap : Option ClassTable} {sources : Sources}
  (resolves : ∀ name, Tells forest bootstrap (sources.resolve name) fun outcome =>
    outcome.map CachedClass.info = sources.answer name)

include resolves

theorem Probe.reaches_steady (probe : Probe) (className : String) (info : Option ClassInfo) :
    Steady forest bootstrap (probe.reaches sources className info) := by
  unfold reaches
  split
  · exact .pure _
  · split
    · exact Sources.isSubtype_steady resolves _ _
    · exact .pure _

omit resolves in
theorem filterAuxM_steady {α : Type} {keep : α → Resolving Bool}
    (each : ∀ item, Steady forest bootstrap (keep item)) : ∀ items kept : List α,
    Steady forest bootstrap (items.filterAuxM keep kept)
  | [], kept => .pure kept
  | item :: items, kept => by
    rw [List.filterAuxM]
    exact (each item).bind fun more => filterAuxM_steady each items _

theorem matchingProbes_steady (probes : List Probe) (file : ClassFile) (className : String) :
    Steady forest bootstrap (matchingProbes probes sources file className) := by
  unfold matchingProbes
  simp only
  split
  · exact .pure _
  · rename_i info _
    have each (probe : Probe) := Probe.reaches_steady resolves probe className info
    exact ((filterAuxM_steady each probes []).bind fun _ => .pure _).bind fun _ => .pure _

theorem Transformer.transform?_steady (transformer : Transformer) (bytes : Bytes) :
    Steady forest bootstrap (transformer.transform? sources bytes) := by
  unfold transform?
  split
  · exact .pure _
  · rename_i file _
    split
    · exact .pure _
    · rename_i className _
      refine (matchingProbes_steady resolves transformer.probes file className).bind fun probes => ?_
      split
      · exact .pure _
      · exact .pure _
      · rename_i probes _
        let woven :=
          weave probes transformer.options (sources.hierarchy ClassCache.empty) file className
        refine ⟨woven.1, Tells.get.bind fun cache sound => ?_⟩
        rw [Sources.hierarchy_eq resolves sound]
        exact fun _ _ => ⟨rfl, Sources.settleQuestions_sound resolves woven.2 sound⟩

end Rewriting

/-! ## Calls -/

namespace ClassCache

/-- What a cache is used for between two answers. -/
inductive Call
  | resolve (number : Option Nat) (name : String)
  | unload (key : LoaderKey)
deriving DecidableEq

/-- The cache after a call. -/
def after (forest : Forest) (bootstrap : Option ClassTable) (cache : ClassCache) :
    Call → ClassCache
  | .resolve number name => (cache.resolve (forest.sources bootstrap number) name).2
  | .unload key => cache.unload key

/-- The cache after a sequence of calls. -/
def run (forest : Forest) (bootstrap : Option ClassTable) (calls : List Call)
    (cache : ClassCache) : ClassCache :=
  calls.foldl (after forest bootstrap) cache

variable {forest : Forest} {bootstrap : Option ClassTable}

theorem run_sound (rooted : forest.Rooted) (apart : forest.Apart) : ∀ (calls : List Call)
    {cache : ClassCache}, cache.Sound forest bootstrap →
    (run forest bootstrap calls cache).Sound forest bootstrap
  | [], _, sound => sound
  | .resolve number name :: calls, cache, sound => by
    have resolved := resolved rooted apart sound number name
    exact run_sound rooted apart calls (resolved.sound rooted sound)
  | .unload key :: calls, cache, sound => run_sound rooted apart calls (sound.unload key)

/-- An entry stays for as long as its loader is not unloaded. -/
theorem run_keeps (rooted : forest.Rooted) (apart : forest.Apart) {owner : Option LoaderKey}
    {name : String} {cached : CachedClass} : ∀ (calls : List Call) {cache : ClassCache},
    cache.Sound forest bootstrap → (∀ key, owner = some key → Call.unload key ∉ calls) →
    cache.held owner name = some cached →
    (run forest bootstrap calls cache).held owner name = some cached
  | [], _, _, _, known => known
  | .resolve number other :: calls, cache, sound, loaded, known => by
    have resolved := resolved rooted apart sound number other
    refine run_keeps rooted apart calls (resolved.sound rooted sound) ?_ (resolved.keeps known)
    intro key own among
    exact loaded key own (List.mem_cons_of_mem _ among)
  | .unload key :: calls, cache, sound, loaded, known => by
    refine run_keeps rooted apart calls (sound.unload key) ?_ ?_
    · intro key' own among
      exact loaded key' own (List.mem_cons_of_mem _ among)
    · rw [after, held_unload, if_neg, known]
      intro own
      exact loaded key own List.mem_cons_self

/-- What a cache answers is what the sources say, however it came about. -/
structure Faithful (forest : Forest) (bootstrap : Option ClassTable) (cache : ClassCache) :
    Prop where
  /-- Every class is what it is for an empty cache. -/
  answers : ∀ number name,
    (cache.resolve (forest.sources bootstrap number) name).1.map CachedClass.info =
      (empty.resolve (forest.sources bootstrap number) name).1.map CachedClass.info
  /-- It is read from the bytes of the loader it belongs to. -/
  belongs : ∀ number name owner bytes,
    (forest.sources bootstrap number).Owns (ClassName.ofString name) owner bytes →
    (cache.resolve (forest.sources bootstrap number) name).1.map CachedClass.info =
      (ClassInfo.ofBytes bytes owner).mapError (ResolveError.unreadable (slashed name))
  missing : ∀ number name, (∀ owner bytes,
    ¬ (forest.sources bootstrap number).Owns (ClassName.ofString name) owner bytes) →
    (cache.resolve (forest.sources bootstrap number) name).1 =
      .error (.notFound (forest.sources bootstrap number).display (slashed name))
  /-- What other loaders define is never returned. -/
  visible : ∀ number name cached,
    (cache.resolve (forest.sources bootstrap number) name).1 = .ok cached →
    ∀ key, cached.info.loader = some key →
      ∃ loader ∈ (forest.sources bootstrap number).chain, loader.key = key
  /-- A class has one entry for as long as its loader is not unloaded. -/
  again : ∀ number name name' cached between,
    (cache.resolve (forest.sources bootstrap number) name).1 = .ok cached →
    slashed name' = slashed name →
    (∀ key, cached.info.loader = some key → Call.unload key ∉ between) →
    ((run forest bootstrap (.resolve number name :: between) cache).resolve
      (forest.sources bootstrap number) name').1 = .ok cached
  single : ∀ owner name cached owner' name' cached', cache.held owner name = some cached →
    cache.held owner' name' = some cached' → cached.number = cached'.number →
    owner = owner' ∧ name = name'
  failing : ∀ number name cause,
    (cache.resolve (forest.sources bootstrap number) name).1 = .error cause →
    (cache.resolve (forest.sources bootstrap number) name).2 = cache
  unloaded : ∀ key owner name, (cache.unload key).held owner name =
    (cache.held owner name).filter (·.info.loader ≠ some key)
  supertypes : ∀ number info onlyDirect,
    ((forest.sources bootstrap number).supertypes info onlyDirect cache).1 =
      ((forest.sources bootstrap number).supertypes info onlyDirect empty).1
  commonSuperclass : ∀ number left right,
    ((forest.sources bootstrap number).commonSuperclass left right cache).1 =
      ((forest.sources bootstrap number).commonSuperclass left right empty).1
  transform? : ∀ number (transformer : Transformer) bytes,
    (transformer.transform? (forest.sources bootstrap number) bytes cache).1 =
      (transformer.transform? (forest.sources bootstrap number) bytes empty).1

/-- What belongs somewhere is known from there. -/
theorem answer_of_owns {sources : Sources} {name : String} {owner : Option LoaderKey} {bytes : Bytes}
    (owns : sources.Owns (ClassName.ofString name) owner bytes) :
    sources.answer name =
      (ClassInfo.ofBytes bytes owner).mapError (ResolveError.unreadable (slashed name)) := by
  unfold Sources.answer
  rw [Sources.locate_eq_some.2 owns]
  cases read : ClassInfo.ofBytes bytes owner <;> simp [read, Except.mapError]

theorem Sound.faithful (rooted : forest.Rooted) (apart : forest.Apart) {cache : ClassCache}
    (sound : cache.Sound forest bootstrap) : cache.Faithful forest bootstrap where
  answers number name := by
    have nothing : empty.Sound forest bootstrap := empty_sound
    have own := (resolved rooted apart sound number name).answer
    have fresh := (resolved rooted apart nothing number name).answer
    exact own.trans fresh.symm
  belongs number name owner bytes owns :=
    (resolved rooted apart sound number name).answer.trans (answer_of_owns owns)
  missing number name nowhere := by
    have resolved := resolved rooted apart sound number name
    generalize cache.resolve (forest.sources bootstrap number) name = result at resolved
    cases resolved with
    | missing => rfl
    | kept located | unreadable located | read located =>
      exact absurd (Sources.locate_eq_some.1 located) (nowhere _ _)
  visible number name cached done key own := by
    obtain ⟨⟨bytes, located⟩, _⟩ := (resolved rooted apart sound number name).entry done
    rw [own] at located
    cases Sources.locate_eq_some.1 located with
    | @loader before after loader _ _ chain =>
      refine ⟨loader, ?_, rfl⟩
      rw [chain]
      simp
  -- The entry is held until its loader goes, and the second resolve looks where it is held.
  again number name name' cached between done same loaded := by
    have resolved := resolved rooted apart sound number name
    obtain ⟨⟨bytes, located⟩, known⟩ := resolved.entry done
    have sound' := resolved.sound rooted sound
    have kept := run_keeps rooted apart between sound' loaded known
    have later := ClassCache.resolved rooted apart (run_sound rooted apart between sound') number name'
    rw [← same] at kept
    have belongs : (forest.sources bootstrap number).locate (ClassName.ofString name') =
        some (cached.info.loader, bytes) := by
      rw [ClassName.ofString, same]
      exact located
    exact later.again belongs kept
  single _ _ _ _ _ _ known known' same := sound.number_inj known known' same
  failing number name cause failed := (resolved rooted apart sound number name).failed failed
  unloaded key owner name := by
    rw [held_unload]
    cases known : cache.held owner name with
    | none => simp
    | some cached =>
      obtain ⟨bytes, _, sane⟩ := sound.defined known
      rw [← ClassInfo.loader_of_ofBytes sane]
      by_cases own : cached.info.loader = some key <;> simp [Option.filter, own]
  supertypes number info onlyDirect :=
    (Sources.supertypes_steady (Sources.resolve_tells rooted apart number) info onlyDirect).eq_empty
      sound
  commonSuperclass number left right :=
    (Sources.commonSuperclass_steady (Sources.resolve_tells rooted apart number) left
      right).eq_empty sound
  transform? number transformer bytes :=
    (transformer.transform?_steady (Sources.resolve_tells rooted apart number) bytes).eq_empty sound

/-- **No history of a cache changes an answer.** -/
theorem history_faithful (rooted : forest.Rooted) (apart : forest.Apart)
    (bootstrap : Option ClassTable) (history : List Call) :
    (run forest bootstrap history empty).Faithful forest bootstrap :=
  (run_sound rooted apart history empty_sound).faithful rooted apart

/-- Two loaders, one the parent of the other; the parent has a class. -/
theorem history_faithful_family :
    let forest := ((Forest.empty.declare 1 none).2.declare 2 (some 0)).2.define 0 "demo.A"
      [0xCA, 0xFE, 0xBA, 0xBE, 0, 0, 0, 52, 0, 3, 1, 0, 1, 65, 7, 0, 1, 0, 33, 0, 2, 0, 0, 0, 0,
        0, 0, 0, 0, 0, 0]
    let history := [.resolve (some 1) "demo.A", .unload ⟨2, 0⟩, .resolve none "demo/A"]
    forest.Rooted ∧ forest.Apart ∧
      (run forest none history empty).Faithful forest none := by
  intro forest history
  have rooted : forest.Rooted :=
    ((Forest.rooted_empty.declare 1 none).declare 2 (some 0)).define 0 "demo.A" _
  have apart : forest.Apart := by
    have parent := Forest.apart_empty.declare 1 none (by simp [Forest.empty])
    have both := parent.declare 2 (some 0) (by simp [Forest.declare, Forest.empty])
    exact both.define 0 "demo.A" _
  exact ⟨rooted, apart, history_faithful rooted apart none history⟩

end ClassCache

end ClassWeave
