/-
# ClassWeave.Proofs.CacheContents -- a cache holds what its loaders define

A class is looked up along the chain of a loader among the entries of a cache, and
located along the same chain among the classes of the loaders.  The two agree as long
as every entry stands under the loader that defines the class (`ClassCache.Sound`):
then a class is looked up where it is located, and nowhere else (`lookup_eq`).
Resolving a class keeps a cache like that, and so does unloading a loader, so all of
it can be said of one call at a time: `resolve_cases` says all that resolving can do.

Entries are told apart by their numbers, which no two entries ever share.
-/
import ClassWeave.Loader.Cache
import ClassWeave.Proofs.LoaderChains
import ClassWeave.Proofs.Outcome

set_option autoImplicit false

namespace ClassWeave

/-! ## What is known of a class -/

namespace ClassInfo

variable {bytes : Bytes} {owner : Option LoaderKey} {info : ClassInfo}

theorem ofBytes_eq_ok : ofBytes bytes owner = .ok info ↔
    ∃ file, ClassFile.read bytes = .ok file ∧
    ∃ methods, file.methods.mapM (memberInfo file) = .ok methods ∧
    ∃ fields, file.fields.mapM (memberInfo file) = .ok fields ∧
    ∃ name, file.name = .ok name ∧ ∃ superName, file.superName = .ok superName ∧
    ∃ interfaces, file.interfaceNames = .ok interfaces ∧
      ⟨ClassName.ofString name, superName, interfaces, AccessFlag.interface.isIn file.access,
        methods, fields, owner⟩ = info := by
  simp only [ofBytes, ofClassFile, Outcome.bind_eq_ok, pure, Except.pure, Except.ok.injEq]

theorem loader_of_ofBytes (known : ofBytes bytes owner = .ok info) : info.loader = owner := by
  obtain ⟨_, _, _, _, _, _, _, _, _, _, _, _, rfl⟩ := ofBytes_eq_ok.1 known
  rfl

end ClassInfo

/-- What is to be known of a class as seen from one place, without any cache. -/
def Sources.answer (sources : Sources) (name : String) : Except ResolveError ClassInfo :=
  match sources.locate (ClassName.ofString name) with
  | none => .error (.notFound sources.display (slashed name))
  | some (owner, bytes) =>
    match ClassInfo.ofBytes bytes owner with
    | .error cause => .error (.unreadable (slashed name) cause)
    | .ok info => .ok info

namespace ClassCache

/-! ## Entries -/

/-- The entry for a class under the loader it belongs to. -/
def held (cache : ClassCache) (owner : Option LoaderKey) (name : String) : Option CachedClass :=
  match owner with
  | none => cache.bootstrap[name]?
  | some key => (cache.loaders[key]?).bind (·[name]?)

@[simp] theorem held_empty (owner : Option LoaderKey) (name : String) :
    empty.held owner name = none := by
  cases owner <;> simp [held, empty]

theorem held_store (cache : ClassCache) (name : ClassName) (info : ClassInfo)
    (owner : Option LoaderKey) (other : String) :
    (cache.store name info).2.held owner other =
      if owner = info.loader ∧ other = name.internal then some ⟨cache.next, info⟩
      else cache.held owner other := by
  unfold store
  cases own : info.loader with
  | none =>
    cases owner with
    | none =>
      by_cases same : other = name.internal
      · simp [held, same]
      · have apart : ¬ name.internal = other := fun equal => same equal.symm
        simp [held, Std.TreeMap.getElem?_insert, same, apart]
    | some key => simp [held]
  | some place =>
    cases owner with
    | none => simp [held]
    | some key =>
      by_cases same : key = place
      · subst same
        by_cases this : other = name.internal
        · simp [held, this]
        · have apart : ¬ name.internal = other := fun equal => this equal.symm
          cases known : cache.loaders[key]? <;>
            simp [held, Std.TreeMap.getElem?_insert, known, this, apart]
      · have apart : ¬ place = key := fun equal => same equal.symm
        simp [held, Std.TreeMap.getElem?_insert, same, apart]

theorem held_unload (cache : ClassCache) (key : LoaderKey) (owner : Option LoaderKey)
    (name : String) : (cache.unload key).held owner name =
      if owner = some key then none else cache.held owner name := by
  cases owner with
  | none => rfl
  | some place =>
    by_cases same : place = key
    · simp [held, unload, same]
    · have apart : ¬ key = place := fun equal => same equal.symm
      simp [held, unload, Std.TreeMap.getElem?_erase, same, apart]

theorem exists_of_lookupIn {cache : ClassCache} {name : ClassName} {cached : CachedClass} :
    ∀ {chain : List Loader}, cache.lookupIn name chain = some cached →
    ∃ before loader after, chain = before ++ loader :: after ∧
      cache.held (some loader.key) name.internal = some cached
  | [], found => by cases found
  | loader :: rest, found => by
    rw [lookupIn] at found
    split at found
    · rename_i own known
      cases found
      exact ⟨[], loader, rest, rfl, known⟩
    · obtain ⟨before, owner, after, rfl, known⟩ := exists_of_lookupIn found
      exact ⟨loader :: before, owner, after, rfl, known⟩

theorem held_of_lookupIn_eq_none {cache : ClassCache} {name : ClassName} :
    ∀ {chain : List Loader}, cache.lookupIn name chain = none →
    ∀ loader ∈ chain, cache.held (some loader.key) name.internal = none
  | [], _ => by simp
  | first :: rest, missed => by
    rw [lookupIn] at missed
    split at missed
    · cases missed
    · rename_i unknown
      exact List.forall_mem_cons.2 ⟨unknown, held_of_lookupIn_eq_none missed⟩

/-! ## Sound caches -/

/-- Every entry stands under the loader that defines the class and says what the class file does,
and has a number of its own. -/
structure Sound (forest : Forest) (bootstrap : Option ClassTable) (cache : ClassCache) : Prop where
  defined : ∀ {owner name cached}, cache.held owner name = some cached →
    ∃ bytes, forest.Defines bootstrap ⟨name⟩ owner bytes ∧
      ClassInfo.ofBytes bytes owner = .ok cached.info
  number_lt : ∀ {owner name cached}, cache.held owner name = some cached →
    cached.number < cache.next
  number_inj : ∀ {owner name cached owner' name' cached'},
    cache.held owner name = some cached → cache.held owner' name' = some cached' →
    cached.number = cached'.number → owner = owner' ∧ name = name'

variable {forest : Forest} {bootstrap : Option ClassTable} {cache : ClassCache}

theorem empty_sound : empty.Sound forest bootstrap := by
  refine ⟨?_, ?_, ?_⟩ <;> intros <;> simp_all

theorem Sound.unload (sound : cache.Sound forest bootstrap) (key : LoaderKey) :
    (cache.unload key).Sound forest bootstrap := by
  have old {owner : Option LoaderKey} {name : String} {cached : CachedClass}
      (known : (cache.unload key).held owner name = some cached) :
      cache.held owner name = some cached := by
    rw [held_unload] at known
    split at known
    · cases known
    · exact known
  exact ⟨fun known => sound.defined (old known), fun known => sound.number_lt (old known),
    fun known known' => sound.number_inj (old known) (old known')⟩

/-- An entry more, under a number that is new. -/
theorem Sound.store (sound : cache.Sound forest bootstrap) {name : ClassName} {info : ClassInfo}
    {bytes : Bytes} (defines : forest.Defines bootstrap name info.loader bytes)
    (read : ClassInfo.ofBytes bytes info.loader = .ok info) :
    (cache.store name info).2.Sound forest bootstrap := by
  have next : (cache.store name info).2.next = cache.next + 1 := by
    unfold ClassCache.store
    cases info.loader <;> rfl
  -- What the cache holds now is the new entry or was held before.
  have entry {owner : Option LoaderKey} {other : String} {cached : CachedClass}
      (known : (cache.store name info).2.held owner other = some cached) :
      (owner = info.loader ∧ other = name.internal) ∧ cached = ⟨cache.next, info⟩ ∨
        cache.held owner other = some cached := by
    rw [held_store] at known
    split at known
    · rename_i own
      cases known
      exact .inl ⟨own, rfl⟩
    · exact .inr known
  refine ⟨?_, ?_, ?_⟩
  · intro owner other cached known
    rcases entry known with ⟨⟨rfl, rfl⟩, rfl⟩ | old
    · exact ⟨bytes, defines, read⟩
    · exact sound.defined old
  · intro owner other cached known
    rw [next]
    rcases entry known with ⟨_, rfl⟩ | old
    · exact Nat.lt_succ_self _
    · exact Nat.lt_succ_of_lt (sound.number_lt old)
  · intro owner other cached owner' other' cached' known known' same
    rcases entry known with ⟨⟨rfl, rfl⟩, rfl⟩ | old
    · rcases entry known' with ⟨⟨rfl, rfl⟩, rfl⟩ | old'
      · exact ⟨rfl, rfl⟩
      · exact absurd same.symm (Nat.ne_of_lt (sound.number_lt old'))
    · rcases entry known' with ⟨⟨rfl, rfl⟩, rfl⟩ | old'
      · exact absurd same (Nat.ne_of_lt (sound.number_lt old))
      · exact sound.number_inj old old' same

/-! ## Looking up and locating -/

section Places

variable (rooted : forest.Rooted) (apart : forest.Apart) (sound : cache.Sound forest bootstrap)

include rooted apart sound

/-- **A class is looked up where it is located**, and nowhere else on the chain. -/
theorem lookup_eq (number : Option Nat) (name : ClassName) :
    cache.lookup (forest.sources bootstrap number) name =
      ((forest.sources bootstrap number).locate name).bind fun found =>
        cache.held found.1 name.internal := by
  cases first : cache.bootstrap[name.internal]? with
  | some cached =>
    have known : cache.held none name.internal = some cached := first
    obtain ⟨bytes, defines, _⟩ := sound.defined known
    have located := Forest.bootstrap_of_defines defines number
    simp only [lookup, first, located]
    exact known.symm
  | none =>
    simp only [lookup, first]
    cases found : cache.lookupIn name (forest.sources bootstrap number).chain with
    | some cached =>
      obtain ⟨before, loader, after, chain, known⟩ := exists_of_lookupIn found
      obtain ⟨bytes, defines, _⟩ := sound.defined known
      have located := Forest.locate_of_defines rooted apart chain defines
      rw [located]
      exact known.symm
    | none =>
      cases located : (forest.sources bootstrap number).locate name with
      | none => rfl
      | some found' =>
        obtain ⟨owner, bytes⟩ := found'
        -- Nothing was found on the way, and the place where the class is located was on the way.
        have unknown : cache.held owner name.internal = none := by
          cases Sources.locate_eq_some.1 located with
          | bootstrap _ => exact first
          | loader _ chain _ _ =>
            refine held_of_lookupIn_eq_none found _ ?_
            rw [chain]
            simp
        exact unknown.symm

omit rooted apart sound

/-! ## Resolving -/

/-- All that resolving a class can come to: it is nowhere, or it has an entry, or its bytes cannot
be read, or they are read and it gets an entry. -/
inductive Resolved (forest : Forest) (bootstrap : Option ClassTable) (cache : ClassCache)
    (number : Option Nat) (name : String) : Except ResolveError CachedClass × ClassCache → Prop
  | missing
      (nowhere : (forest.sources bootstrap number).locate (ClassName.ofString name) = none) :
      Resolved forest bootstrap cache number name
        (.error (.notFound (forest.sources bootstrap number).display (slashed name)), cache)
  | kept {owner : Option LoaderKey} {bytes : Bytes} {cached : CachedClass}
      (located : (forest.sources bootstrap number).locate (ClassName.ofString name) =
        some (owner, bytes))
      (known : cache.held owner (slashed name) = some cached)
      (sane : ClassInfo.ofBytes bytes owner = .ok cached.info) :
      Resolved forest bootstrap cache number name (.ok cached, cache)
  | unreadable {owner : Option LoaderKey} {bytes : Bytes} {cause : ReadError}
      (located : (forest.sources bootstrap number).locate (ClassName.ofString name) =
        some (owner, bytes))
      (unknown : cache.held owner (slashed name) = none)
      (damaged : ClassInfo.ofBytes bytes owner = .error cause) :
      Resolved forest bootstrap cache number name
        (.error (.unreadable (slashed name) cause), cache)
  | read {owner : Option LoaderKey} {bytes : Bytes} {info : ClassInfo}
      (located : (forest.sources bootstrap number).locate (ClassName.ofString name) =
        some (owner, bytes))
      (unknown : cache.held owner (slashed name) = none)
      (sane : ClassInfo.ofBytes bytes owner = .ok info) :
      Resolved forest bootstrap cache number name
        (.ok ⟨cache.next, info⟩, (cache.store (ClassName.ofString name) info).2)

theorem store_fst (cache : ClassCache) (name : ClassName) (info : ClassInfo) :
    (cache.store name info).1 = ⟨cache.next, info⟩ := by
  unfold store
  cases info.loader <;> rfl

include rooted apart sound in
theorem resolved (number : Option Nat) (name : String) :
    Resolved forest bootstrap cache number name
      (cache.resolve (forest.sources bootstrap number) name) := by
  have looked := lookup_eq rooted apart sound number (ClassName.ofString name)
  unfold resolve
  cases located : (forest.sources bootstrap number).locate (ClassName.ofString name) with
  | none =>
    simp only [looked, located]
    exact .missing located
  | some found =>
    obtain ⟨owner, bytes⟩ := found
    simp only [looked, located, Option.bind_some]
    cases known : cache.held owner (ClassName.ofString name).internal with
    | some cached =>
      obtain ⟨bytes', defines, sane⟩ := sound.defined known
      obtain rfl : bytes' = bytes := Forest.bytes_of_defines rooted apart located defines
      exact .kept located known sane
    | none =>
      cases read : ClassInfo.ofBytes bytes owner with
      | error cause => exact .unreadable located known read
      | ok info =>
        simp only [store_fst]
        exact .read located known read

end Places

namespace Resolved

variable {number : Option Nat} {name : String} {result : Except ResolveError CachedClass × ClassCache}
  {cached : CachedClass} (resolved : Resolved forest bootstrap cache number name result)

include resolved

/-- Resolving tells what there is to be known of a class, whatever is in the cache. -/
theorem answer :
    result.1.map CachedClass.info = (forest.sources bootstrap number).answer name := by
  unfold Sources.answer
  cases resolved with
  | missing nowhere =>
    rw [nowhere]
    rfl
  | kept located _ sane | read located _ sane =>
    simp only [located, sane]
    rfl
  | unreadable located _ damaged =>
    simp only [located, damaged]
    rfl

theorem sound (rooted : forest.Rooted) (sound : cache.Sound forest bootstrap) :
    result.2.Sound forest bootstrap := by
  cases resolved with
  | missing | kept | unreadable => exact sound
  | read located unknown sane =>
    obtain rfl := ClassInfo.loader_of_ofBytes sane
    exact sound.store (Forest.defines_of_locate rooted located) sane

/-- Resolving takes no entry away. -/
theorem keeps {owner : Option LoaderKey} {other : String}
    (known : cache.held owner other = some cached) : result.2.held owner other = some cached := by
  cases resolved with
  | missing | kept | unreadable => exact known
  | read located unknown sane =>
    rw [held_store, if_neg, known]
    rintro ⟨rfl, rfl⟩
    rw [ClassInfo.loader_of_ofBytes sane] at known
    exact absurd (unknown.symm.trans known) (by simp)

/-- A class that was resolved belongs to the loader that its entry says, and has that entry. -/
theorem entry (done : result.1 = .ok cached) :
    (∃ bytes, (forest.sources bootstrap number).locate (ClassName.ofString name) =
      some (cached.info.loader, bytes)) ∧
    result.2.held cached.info.loader (slashed name) = some cached := by
  cases resolved with
  | missing | unreadable => cases done
  | kept located known sane =>
    cases done
    rw [ClassInfo.loader_of_ofBytes sane]
    exact ⟨⟨_, located⟩, known⟩
  | @read _ bytes _ located unknown sane =>
    cases done
    refine ⟨⟨bytes, ?_⟩, ?_⟩
    · rw [ClassInfo.loader_of_ofBytes sane]
      exact located
    · rw [held_store]
      exact if_pos ⟨rfl, rfl⟩

/-- A class that cannot be resolved leaves no trace. -/
theorem failed {cause : ResolveError} (failed : result.1 = .error cause) : result.2 = cache := by
  cases resolved with
  | missing | unreadable => rfl
  | kept | read => cases failed

/-- A class that has an entry where it belongs is not read again. -/
theorem again {bytes : Bytes}
    (belongs : (forest.sources bootstrap number).locate (ClassName.ofString name) =
      some (cached.info.loader, bytes))
    (known : cache.held cached.info.loader (slashed name) = some cached) :
    result.1 = .ok cached := by
  cases resolved with
  | missing nowhere =>
    rw [belongs] at nowhere
    cases nowhere
  | kept located known' sane =>
    rw [belongs] at located
    cases located
    rw [known] at known'
    cases known'
    rfl
  | unreadable located unknown | read located unknown =>
    rw [belongs] at located
    cases located
    rw [known] at unknown
    cases unknown

end Resolved

end ClassCache

end ClassWeave
