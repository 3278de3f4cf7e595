/-
# ClassWeave.Proofs.LoaderChains -- a class belongs to one loader, whoever asks

The chain of a loader is the chain of its parent and the loader itself, so of two chains
that share a loader the way down to that loader is the same (`Forest.chain_split`).
Every forest that is set up loader by loader has this form (`Forest.Rooted`), whatever
classes the loaders are given.

`Sources.Owns` says which loader a class belongs to as seen from one place: the
bootstrap loader if it has the class, or else the first loader of the chain that has
it.  What a class belongs to as seen from anywhere is what it belongs to as seen from
there (`Forest.defines_of_locate`, `Forest.locate_of_defines`).
-/
import ClassWeave.Loader.Basic
import Mathlib.Data.List.Induction

set_option autoImplicit false

namespace ClassWeave

/-! ## Chains -/

namespace Forest

/-- The ancestors of every loader are another loader and its ancestors, or nobody. -/
def Rooted (forest : Forest) : Prop :=
  ∀ (number : Nat) (loader : Loader) (ancestors : List Nat),
    forest.loaders[number]? = some (loader, ancestors) → ancestors = [] ∨
      ∃ parent < forest.loaders.size, ancestors = forest.line parent

/-- No two loaders have the same key. -/
def Apart (forest : Forest) : Prop :=
  ∀ (i j : Nat) (first second : Loader × List Nat), forest.loaders[i]? = some first →
    forest.loaders[j]? = some second → first.1.key = second.1.key → i = j

variable {forest : Forest}

theorem line_of_known {number : Nat} {loader : Loader} {ancestors : List Nat}
    (known : forest.loaders[number]? = some (loader, ancestors)) :
    forest.line number = ancestors ++ [number] := by
  simp only [line, known]

theorem rooted_empty : empty.Rooted := by
  intro number loader ancestors known
  simp [empty] at known

/-- Lines stay as they are when a loader comes in behind all others. -/
theorem line_push (added : Loader × List Nat) {number : Nat}
    (known : number < forest.loaders.size) :
    line ⟨forest.loaders.push added⟩ number = forest.line number := by
  unfold line
  rw [Array.getElem?_push, if_neg (Nat.ne_of_lt known)]

theorem Rooted.push (rooted : forest.Rooted) (loader : Loader) {ancestors : List Nat}
    (line : ancestors = [] ∨ ∃ parent < forest.loaders.size, ancestors = forest.line parent) :
    Rooted ⟨forest.loaders.push (loader, ancestors)⟩ := by
  have more {others : List Nat}
      (old : others = [] ∨ ∃ parent < forest.loaders.size, others = forest.line parent) :
      others = [] ∨ ∃ parent < (forest.loaders.push (loader, ancestors)).size,
        others = Forest.line ⟨forest.loaders.push (loader, ancestors)⟩ parent := by
    refine old.imp_right ?_
    rintro ⟨parent, known, same⟩
    refine ⟨parent, ?_, ?_⟩
    · rw [Array.size_push]
      omega
    · rw [same, line_push _ known]
  intro number other others known
  rw [Array.getElem?_push] at known
  by_cases last : number = forest.loaders.size
  · rw [if_pos last] at known
    cases known
    exact more line
  · rw [if_neg last] at known
    exact more (rooted number other others known)

theorem Rooted.declare (rooted : forest.Rooted) (id : Nat) (parent : Option Nat) :
    (forest.declare id parent).2.Rooted := by
  refine rooted.push ⟨⟨id, 0⟩, ∅⟩ ?_
  cases parent with
  | none => exact .inl rfl
  | some parent =>
    by_cases known : parent < forest.loaders.size
    · exact .inr ⟨parent, known, rfl⟩
    · left
      have nobody : forest.loaders[parent]? = none :=
        Array.getElem?_eq_none (Nat.le_of_not_lt known)
      simp [line, nobody]

theorem Rooted.nextGeneration (rooted : forest.Rooted) (number : Nat) :
    (forest.nextGeneration number).2.Rooted := by
  unfold Forest.nextGeneration
  split
  · rename_i loader ancestors known
    exact rooted.push ⟨⟨loader.key.id, loader.key.generation + 1⟩, ∅⟩
      (rooted number loader ancestors known)
  · exact rooted

theorem apart_empty : empty.Apart := by
  intro i j first second known
  simp [empty] at known

theorem Apart.push (apart : forest.Apart) {loader : Loader}
    (fresh : ∀ given ∈ forest.loaders, given.1.key ≠ loader.key) (ancestors : List Nat) :
    Apart ⟨forest.loaders.push (loader, ancestors)⟩ := by
  intro i j first second known known' same
  rw [Array.getElem?_push] at known known'
  by_cases last : i = forest.loaders.size
  · by_cases last' : j = forest.loaders.size
    · rw [last, last']
    · rw [if_pos last] at known
      rw [if_neg last'] at known'
      cases known
      exact absurd same.symm (fresh second (Array.mem_of_getElem? known'))
  · by_cases last' : j = forest.loaders.size
    · rw [if_neg last] at known
      rw [if_pos last'] at known'
      cases known'
      exact absurd same (fresh first (Array.mem_of_getElem? known))
    · rw [if_neg last] at known
      rw [if_neg last'] at known'
      exact apart i j first second known known' same

theorem Apart.declare (apart : forest.Apart) (id : Nat) (parent : Option Nat)
    (fresh : ∀ given ∈ forest.loaders, given.1.key.id ≠ id) :
    (forest.declare id parent).2.Apart := by
  refine apart.push ?_ _
  intro given among same
  exact fresh given among (congrArg LoaderKey.id same)

/-- Loaders keep their ancestors when one of them is given a class. -/
theorem line_define (number : Nat) (name : String) (bytes : Bytes) (i : Nat) :
    (forest.define number name bytes).line i = forest.line i := by
  unfold line define
  rw [Array.getElem?_modify]
  by_cases own : number = i
  · rw [if_pos own]
    cases forest.loaders[i]? <;> rfl
  · rw [if_neg own]

/-- What a loader was before one of them was given a class. -/
theorem known_before_define {number : Nat} {name : String} {bytes : Bytes} {i : Nat}
    {given : Loader × List Nat}
    (known : (forest.define number name bytes).loaders[i]? = some given) :
    ∃ before, forest.loaders[i]? = some (before, given.2) ∧ before.key = given.1.key := by
  unfold define at known
  rw [Array.getElem?_modify] at known
  by_cases own : number = i
  · rw [if_pos own] at known
    obtain ⟨⟨before, ancestors⟩, found, same⟩ := Option.map_eq_some_iff.1 known
    cases same
    exact ⟨before, found, rfl⟩
  · rw [if_neg own] at known
    exact ⟨given.1, known, rfl⟩

theorem Apart.define (apart : forest.Apart) (number : Nat) (name : String) (bytes : Bytes) :
    (forest.define number name bytes).Apart := by
  intro i j first second known known' same
  obtain ⟨before, found, key⟩ := known_before_define known
  obtain ⟨before', found', key'⟩ := known_before_define known'
  exact apart i j _ _ found found' (key.trans (same.trans key'.symm))

theorem Rooted.define (rooted : forest.Rooted) (number : Nat) (name : String) (bytes : Bytes) :
    (forest.define number name bytes).Rooted := by
  intro i loader ancestors known
  obtain ⟨before, found, _⟩ := known_before_define known
  have size : (forest.define number name bytes).loaders.size = forest.loaders.size :=
    Array.size_modify
  rcases rooted i before ancestors found with none_ | ⟨parent, known, same⟩
  · exact .inl none_
  · exact .inr ⟨parent, size ▸ known, by rw [line_define, same]⟩

/-- The way down to a loader is its own line, on whatever line it stands. -/
theorem line_split (rooted : forest.Rooted) : ∀ (after : List Nat) {number above : Nat}
    {before : List Nat}, forest.line number = before ++ above :: after →
    forest.line above = before ++ [above] := by
  intro after
  -- By induction from the end: the last loader of a line is the one whose line it is.
  induction after using List.reverseRecOn with
  | nil =>
    intro number above before split
    have own : above = number := by
      unfold line at split
      split at split
      · exact (List.append_inj' split rfl).2 |> List.singleton_inj.1 |>.symm
      · simp at split
    rw [own, split, own]
  | append_singleton after last ih =>
    intro number above before split
    have behind : forest.line number = (before ++ above :: after) ++ [last] := by
      rw [split]
      simp
    unfold line at behind
    split at behind
    · rename_i loader ancestors known
      obtain ⟨higher, _⟩ := List.append_inj' behind rfl
      rcases rooted number loader ancestors known with none_ | ⟨parent, _, line⟩
      · rw [none_] at higher
        simp at higher
      · exact ih (line.symm.trans higher)
    · simp at behind

/-- The part of a chain down to a loader is the chain of that loader. -/
theorem chain_split (rooted : forest.Rooted) {bootstrap : Option ClassTable} {number : Option Nat}
    {before after : List Loader} {loader : Loader}
    (split : (forest.sources bootstrap number).chain = before ++ loader :: after) :
    ∃ own ancestors, forest.loaders[own]? = some (loader, ancestors) ∧
      (forest.sources bootstrap (some own)).chain = before ++ [loader] := by
  cases number with
  | none => simp [sources] at split
  | some number =>
    simp only [sources, Option.map_some, Option.getD_some] at split
    obtain ⟨early, rest, line, first, others⟩ := List.filterMap_eq_append_iff.1 split
    obtain ⟨between, own, late, rfl, none_, known, _⟩ := List.filterMap_eq_cons_iff.1 others
    rw [← List.append_assoc] at line
    have way := line_split rooted late line
    obtain ⟨⟨same, ancestors⟩, found, rfl⟩ := Option.map_eq_some_iff.1 known
    refine ⟨own, ancestors, found, ?_⟩
    have skipped : between.filterMap (fun i => (forest.loaders[i]?).map Prod.fst) = [] :=
      List.filterMap_eq_nil_iff.2 none_
    simp [sources, way, first, skipped, found]

/-- The last loader of a chain is the one that it is the chain of. -/
theorem last_of_chain {bootstrap : Option ClassTable} {own : Nat} {key : LoaderKey}
    (last : (forest.sources bootstrap (some own)).key? = some key) :
    ∃ given, forest.loaders[own]? = some given ∧ given.1.key = key := by
  cases known : forest.loaders[own]? with
  | none => simp [sources, Sources.key?, line, known] at last
  | some given =>
    obtain ⟨loader, ancestors⟩ := given
    refine ⟨(loader, ancestors), rfl, ?_⟩
    simpa [sources, Sources.key?, line_of_known known, known] using last

end Forest

/-! ## Where a class belongs -/

namespace Sources

/-- Where a class belongs, and its bytes: to the bootstrap loader if it has the class, or else to
the first loader of the chain that has it. -/
inductive Owns (sources : Sources) (name : ClassName) : Option LoaderKey → Bytes → Prop
  | bootstrap {bytes : Bytes} (has : sources.bootstrap.bind (·[name.internal]?) = some bytes) :
      Owns sources name none bytes
  | loader {before after : List Loader} {loader : Loader} {bytes : Bytes}
      (above : sources.bootstrap.bind (·[name.internal]?) = none)
      (chain : sources.chain = before ++ loader :: after)
      (higher : ∀ other ∈ before, other.classes[name.internal]? = none)
      (has : loader.classes[name.internal]? = some bytes) :
      Owns sources name (some loader.key) bytes

variable {name : ClassName}

theorem locateIn_append (first second : List Loader) :
    locateIn name (first ++ second) = (locateIn name first).or (locateIn name second) := by
  induction first with
  | nil => simp [locateIn]
  | cons loader rest ih =>
    rw [List.cons_append, locateIn, locateIn]
    cases loader.classes[name.internal]? with
    | none => exact ih
    | some bytes => rfl

theorem locateIn_eq_none {chain : List Loader} :
    locateIn name chain = none ↔ ∀ loader ∈ chain, loader.classes[name.internal]? = none := by
  induction chain with
  | nil => simp [locateIn]
  | cons loader rest ih =>
    rw [locateIn, List.forall_mem_cons]
    cases has : loader.classes[name.internal]? with
    | none => exact ih.trans (and_iff_right rfl).symm
    | some bytes => simp

theorem exists_of_locateIn {key : LoaderKey} {bytes : Bytes} : ∀ {chain : List Loader},
    locateIn name chain = some (key, bytes) →
    ∃ before loader after, chain = before ++ loader :: after ∧
      (∀ other ∈ before, other.classes[name.internal]? = none) ∧
      loader.classes[name.internal]? = some bytes ∧ loader.key = key
  | [], located => by cases located
  | loader :: rest, located => by
    rw [locateIn] at located
    cases has : loader.classes[name.internal]? with
    | some own =>
      simp only [has, Option.some.injEq, Prod.mk.injEq] at located
      exact ⟨[], loader, rest, rfl, by simp, by rw [has, located.2], located.1⟩
    | none =>
      simp only [has] at located
      obtain ⟨before, owner, after, rfl, higher, own, key⟩ := exists_of_locateIn located
      refine ⟨loader :: before, owner, after, rfl, ?_, own, key⟩
      exact List.forall_mem_cons.2 ⟨has, higher⟩

/-- Locating a class tells where it belongs. -/
theorem locate_eq_some {sources : Sources} {owner : Option LoaderKey} {bytes : Bytes} :
    sources.locate name = some (owner, bytes) ↔ sources.Owns name owner bytes := by
  unfold locate
  constructor
  · intro located
    cases above : sources.bootstrap.bind (·[name.internal]?) with
    | some own =>
      simp only [above, Option.some.injEq, Prod.mk.injEq] at located
      obtain ⟨rfl, rfl⟩ := located
      exact .bootstrap above
    | none =>
      simp only [above] at located
      obtain ⟨⟨key, own⟩, found, same⟩ := Option.map_eq_some_iff.1 located
      cases same
      obtain ⟨before, loader, after, chain, higher, has, rfl⟩ := exists_of_locateIn found
      exact .loader above chain higher has
  · intro owns
    cases owns with
    | bootstrap has => rw [has]
    | @loader before after loader bytes above chain higher has =>
      have skipped : locateIn name before = none := locateIn_eq_none.2 higher
      have own : locateIn name (loader :: after) = some (loader.key, bytes) := by
        rw [locateIn, has]
      simp only [above, chain, locateIn_append, skipped, own]
      rfl

end Sources

namespace Forest

variable {forest : Forest} {bootstrap : Option ClassTable} {name : ClassName}

/-- The class is what its loader has under that name, as seen from the loader itself. -/
def Defines (forest : Forest) (bootstrap : Option ClassTable) (name : ClassName)
    (owner : Option LoaderKey) (bytes : Bytes) : Prop :=
  ∃ own, (forest.sources bootstrap own).key? = owner ∧
    (forest.sources bootstrap own).locate name = some (owner, bytes)

/-- What a class belongs to from anywhere has it as its own. -/
theorem defines_of_locate (rooted : forest.Rooted) {number : Option Nat} {owner : Option LoaderKey}
    {bytes : Bytes} (located : (forest.sources bootstrap number).locate name = some (owner, bytes)) :
    forest.Defines bootstrap name owner bytes := by
  cases Sources.locate_eq_some.1 located with
  | bootstrap has =>
    exact ⟨none, rfl, Sources.locate_eq_some.2 (.bootstrap has)⟩
  | loader above chain higher has =>
    obtain ⟨own, _, _, way⟩ := chain_split rooted chain
    refine ⟨some own, by simp [Sources.key?, way], ?_⟩
    exact Sources.locate_eq_some.2 (.loader above way higher has)

/-- What a loader of a chain has as its own belongs to it from the end of the chain as well. -/
theorem locate_of_defines (rooted : forest.Rooted) (apart : forest.Apart) {number : Option Nat}
    {before after : List Loader} {loader : Loader} {bytes : Bytes}
    (split : (forest.sources bootstrap number).chain = before ++ loader :: after)
    (defines : forest.Defines bootstrap name (some loader.key) bytes) :
    (forest.sources bootstrap number).locate name = some (some loader.key, bytes) := by
  obtain ⟨own, key, located⟩ := defines
  obtain ⟨place, ancestors, known, way⟩ := chain_split rooted split
  cases own with
  | none => cases key
  | some own =>
    obtain ⟨given, other, same⟩ := last_of_chain key
    obtain rfl : own = place := apart own place given (loader, ancestors) other known same
    have whole : before ++ loader :: after = before ++ [loader] ++ after := by simp
    unfold Sources.locate at located ⊢
    cases above : bootstrap.bind (·[name.internal]?) with
    | some bytes =>
      simp [sources, above] at located
    | none =>
      have none_ : (forest.sources bootstrap (some own)).bootstrap.bind (·[name.internal]?) =
          none := above
      have none' : (forest.sources bootstrap number).bootstrap.bind (·[name.internal]?) =
          none := above
      simp only [none_, way] at located
      obtain ⟨found, first, same⟩ := Option.map_eq_some_iff.1 located
      simp only [none', split, whole]
      rw [Sources.locateIn_append, first]
      exact congrArg some same

theorem bootstrap_of_defines {bytes : Bytes}
    (defines : forest.Defines bootstrap name none bytes) (number : Option Nat) :
    (forest.sources bootstrap number).locate name = some (none, bytes) := by
  obtain ⟨own, _, located⟩ := defines
  cases Sources.locate_eq_some.1 located with
  | bootstrap has => exact Sources.locate_eq_some.2 (.bootstrap has)

/-- What a class belongs to has only one class of that name. -/
theorem bytes_of_defines (rooted : forest.Rooted) (apart : forest.Apart) {number : Option Nat}
    {owner : Option LoaderKey} {bytes known : Bytes}
    (located : (forest.sources bootstrap number).locate name = some (owner, bytes))
    (defines : forest.Defines bootstrap name owner known) : known = bytes := by
  have again : (forest.sources bootstrap number).locate name = some (owner, known) := by
    cases Sources.locate_eq_some.1 located with
    | bootstrap _ => exact bootstrap_of_defines defines number
    | loader _ chain _ _ => exact locate_of_defines rooted apart chain defines
  rw [located] at again
  cases again
  rfl

end Forest

end ClassWeave
