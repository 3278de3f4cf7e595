/-
# ClassWeave.Proofs.PoolPlaces -- every constant has one place, the lowest

Interning is asked for constants in any order, and any request may find the table full.
`intern_settles` says what a caller can rely on at every request of such a sequence: the
table has only grown, also by a request that failed; the index in an answer leads to the
constant then and ever after; and a constant that is there already is not added again.

For the last point the places that a pool remembers have to be the lowest ones
(`ConstantPool.Complete`).  A table of an existing class may hold a constant twice, and
it may refer to entries that come later; what it must not do is refer to entries that
are not there, since one that is appended could then change what an old entry stands for.
From such a table on, interning adds a constant only if it has no place
(`ConstantPool.Filled`), parts before the whole, and the places stay the lowest.
-/
import ClassWeave.Proofs.PoolGrowth

set_option autoImplicit false

namespace ClassWeave

/-! ## Tables that refer to themselves only -/

/-- The indexes inside an entry. -/
def Entry.references : Entry → List UInt16
  | .class name | .module name | .package name => [name]
  | .string text => [text]
  | .field owner member | .method owner member | .interfaceMethod owner member => [owner, member]
  | .nameAndType name descriptor => [name, descriptor]
  | .methodHandle _ reference => [reference]
  | .methodType descriptor => [descriptor]
  | .dynamic _ call | .invokeDynamic _ call => [call]
  | _ => []

namespace Entries

/-- No index inside the table points outside it. -/
def Closed (entries : Entries) : Prop :=
  ∀ (i : Nat) (entry : Entry), entries[i]? = some entry →
    ∀ index ∈ entry.references, index.toNat < entries.size

variable {before after : Entries}

theorem Extends.getElem?_of_lt (extends_ : before.Extends after) {i : Nat} (within : i < before.size) :
    after[i]? = before[i]? := by
  rw [Array.getElem?_eq_getElem within]
  exact extends_.getElem? (Array.getElem?_eq_getElem within)

section Lookups

variable (extends_ : before.Extends after)

include extends_

theorem Extends.utf8?_of_lt {index : UInt16} (within : index.toNat < before.size) :
    after.utf8? index = before.utf8? index := by
  rw [Entries.utf8?, Entries.utf8?, extends_.getElem?_of_lt within]

variable (closed : before.Closed)

include closed

theorem Extends.className?_of_lt {index : UInt16} (within : index.toNat < before.size) :
    after.className? index = before.className? index := by
  rw [Entries.className?, Entries.className?, extends_.getElem?_of_lt within]
  split
  · rename_i name found
    exact extends_.utf8?_of_lt (closed _ _ found name (by simp [Entry.references]))
  · rfl

theorem Extends.nameAndType?_of_lt {index : UInt16} (within : index.toNat < before.size) :
    after.nameAndType? index = before.nameAndType? index := by
  rw [Entries.nameAndType?, Entries.nameAndType?, extends_.getElem?_of_lt within]
  split
  · rename_i name descriptor found
    rw [extends_.utf8?_of_lt (closed _ _ found name (by simp [Entry.references])),
      extends_.utf8?_of_lt (closed _ _ found descriptor (by simp [Entry.references]))]
  · rfl

theorem Extends.member?_of_lt {owner nameAndType : UInt16} (first : owner.toNat < before.size)
    (second : nameAndType.toNat < before.size) :
    after.member? owner nameAndType = before.member? owner nameAndType := by
  rw [Entries.member?, Entries.member?, extends_.className?_of_lt closed first,
    extends_.nameAndType?_of_lt closed second]

/-- What an entry of the table stands for does not change. -/
theorem Extends.constant?_of_lt {entry : Entry}
    (inside : ∀ index ∈ entry.references, index.toNat < before.size) :
    after.constant? entry = before.constant? entry := by
  cases entry <;> simp only [Entry.references, List.mem_cons, List.not_mem_nil, or_false,
    forall_eq_or_imp, forall_eq] at inside
  case «class» | string | methodType =>
    rw [Entries.constant?, Entries.constant?, extends_.utf8?_of_lt inside]
  case nameAndType =>
    rw [Entries.constant?, Entries.constant?, extends_.utf8?_of_lt inside.1,
      extends_.utf8?_of_lt inside.2]
  case field | method | interfaceMethod =>
    rw [Entries.constant?, Entries.constant?, extends_.member?_of_lt closed inside.1 inside.2]
  case invokeDynamic =>
    rw [Entries.constant?, Entries.constant?, extends_.nameAndType?_of_lt closed inside]
  all_goals rfl

theorem Extends.constantAt?_of_lt {i : Nat} (within : i < before.size) :
    after.constantAt? i = before.constantAt? i := by
  rw [Entries.constantAt?, Entries.constantAt?, extends_.getElem?_of_lt within]
  cases found : before[i]? with
  | none => rfl
  | some entry => exact extends_.constant?_of_lt closed (closed i entry found)

end Lookups

theorem lt_of_utf8? {entries : Entries} {index : UInt16} {text : String}
    (found : entries.utf8? index = some text) : index.toNat < entries.size :=
  (Array.getElem?_eq_some_iff.1 ((utf8?_eq_some _ _ _).1 found)).1

theorem lt_of_nameAndType? {entries : Entries} {index : UInt16} {parts : String × String}
    (found : entries.nameAndType? index = some parts) : index.toNat < entries.size := by
  obtain ⟨_, _, entry, _⟩ := (nameAndType?_eq_some _ _ _ _).1 found
  exact (Array.getElem?_eq_some_iff.1 entry).1

theorem lt_of_member? {entries : Entries} {owner nameAndType : UInt16} {target : MemberRef}
    (found : entries.member? owner nameAndType = some target) :
    owner.toNat < entries.size ∧ nameAndType.toNat < entries.size := by
  obtain ⟨first, second⟩ := (member?_eq_some _ _ _ _).1 found
  obtain ⟨_, entry, _⟩ := (className?_eq_some _ _ _).1 first
  exact ⟨(Array.getElem?_eq_some_iff.1 entry).1, lt_of_nameAndType? second⟩

/-- An entry that stands for a constant refers to entries that are there. -/
theorem references_lt {entries : Entries} {entry : Entry} {constant : Constant}
    (stands : entries.constant? entry = some constant) :
    ∀ index ∈ entry.references, index.toNat < entries.size := by
  cases entry <;> simp only [Entries.constant?, Option.map_eq_some_iff, Option.bind_eq_bind,
    Option.bind_eq_some_iff, Option.pure_def, reduceCtorEq] at stands <;>
    simp only [Entry.references, List.mem_cons, List.not_mem_nil, or_false, forall_eq_or_imp,
      forall_eq, false_implies, implies_true]
  case «class» | string | methodType =>
    obtain ⟨_, found, _⟩ := stands
    exact lt_of_utf8? found
  case nameAndType =>
    obtain ⟨_, left, _, right, _⟩ := stands
    exact ⟨lt_of_utf8? left, lt_of_utf8? right⟩
  case field | method | interfaceMethod =>
    obtain ⟨_, found, _⟩ := stands
    exact lt_of_member? found
  case invokeDynamic =>
    obtain ⟨_, found, _⟩ := stands
    exact lt_of_nameAndType? found

end Entries

/-! ## Pools that know their table -/

namespace ConstantPool

/-- Every constant that the table holds is remembered, at the lowest of its places. -/
structure Complete (pool : ConstantPool) : Prop where
  sound : pool.Sound
  closed : pool.entries.Closed
  lowest : ∀ constant i, pool.entries.constantAt? i = some constant →
    ∃ index, pool.places[constant]? = some index ∧ index.toNat ≤ i

theorem size_push (pool : ConstantPool) (constant : Constant) (entry : Entry) :
    (pool.push constant entry).entries.size = pool.entries.size + entry.slots := by
  rw [← Array.length_toList, entries_push, List.length_append, Entry.length_spread,
    Array.length_toList]

/-- Behind the old table stand the entry and, if it is wide, its second index. -/
theorem getElem?_push (pool : ConstantPool) (constant : Constant) (entry : Entry) {i : Nat}
    {found : Entry} (behind : pool.entries.size ≤ i)
    (known : (pool.push constant entry).entries[i]? = some found) :
    i = pool.entries.size ∧ found = entry ∨
      i = pool.entries.size + 1 ∧ entry.slots = 2 ∧ found = .unusable := by
  rw [← Array.getElem?_toList, entries_push,
    List.getElem?_append_right (by rwa [Array.length_toList]), Array.length_toList] at known
  unfold Entry.spread at known
  split at known
  · rename_i wide
    rcases offset : i - pool.entries.size with _ | _ | rest
    all_goals rw [offset] at known
    · cases known
      exact .inl ⟨by omega, rfl⟩
    · cases known
      exact .inr ⟨by omega, wide, rfl⟩
    · cases known
  · rcases offset : i - pool.entries.size with _ | rest
    all_goals rw [offset] at known
    · cases known
      exact .inl ⟨by omega, rfl⟩
    · cases known

theorem Complete.push {pool : ConstantPool} (complete : pool.Complete) {constant : Constant}
    {entry : Entry} (fresh : pool.places[constant]? = none)
    (stands : pool.entries.constant? entry = some constant)
    (room : pool.entries.size + entry.slots ≤ 0xFFFF) : (pool.push constant entry).Complete := by
  have extends_ := pool.push_extends constant entry
  have size := pool.size_push constant entry
  have slots := entry.slots_pos
  refine ⟨complete.sound.push stands room, ?_, ?_⟩
  · intro i found known index among
    rcases Nat.lt_or_ge i pool.entries.size with old | new
    · rw [extends_.getElem?_of_lt old] at known
      have inside := complete.closed i found known index among
      omega
    · rcases pool.getElem?_push constant entry new known with ⟨_, rfl⟩ | ⟨_, _, rfl⟩
      · have inside := Entries.references_lt stands index among
        omega
      · cases among
  · intro other i known
    have remembered : (pool.push constant entry).places[other]? =
        if compare constant other = .eq then some (UInt16.ofNat pool.entries.size)
        else pool.places[other]? := by
      simp only [ConstantPool.push, Std.TreeMap.getElem?_insert]
    rw [remembered]
    rcases Nat.lt_or_ge i pool.entries.size with old | new
    · rw [extends_.constantAt?_of_lt complete.closed old] at known
      obtain ⟨index, place, low⟩ := complete.lowest other i known
      -- A constant that is pushed had no place, so it is not the one that stands here.
      rw [if_neg ?_]
      · exact ⟨index, place, low⟩
      · intro same
        rw [← Std.compare_eq_iff_eq.1 same, fresh] at place
        cases place
    · obtain ⟨found, there, means⟩ := (Entries.constantAt?_eq_some _ _ _).1 known
      rcases pool.getElem?_push constant entry new there with ⟨_, rfl⟩ | ⟨_, _, rfl⟩
      · have same : some other = some constant := means.symm.trans (extends_.constant? stands)
        cases same
        rw [if_pos Std.ReflCmp.compare_self]
        exact ⟨_, rfl, by simp only [UInt16.toNat_ofNat']; omega⟩
      · cases means

/-! ## The pool of a table -/

theorem note_kept {entries : Entries} {places : Std.TreeMap Constant UInt16} {constant : Constant}
    {index place : UInt16} (known : places[constant]? = some place) :
    (note entries places index)[constant]? = some place := by
  unfold note
  split
  · rw [Std.TreeMap.getElem?_insertIfNew, if_neg]
    · exact known
    · rintro ⟨same, unknown⟩
      rw [Std.compare_eq_iff_eq.1 same, Std.TreeMap.mem_iff_isSome_getElem?, known] at unknown
      exact unknown rfl
  · exact known

theorem foldl_note_kept {entries : Entries} {constant : Constant} {place : UInt16} :
    ∀ (indexes : List UInt16) {places : Std.TreeMap Constant UInt16},
    places[constant]? = some place → (indexes.foldl (note entries) places)[constant]? = some place
  | [], _, known => known
  | _ :: indexes, _, known => foldl_note_kept indexes (note_kept known)

/-- Noted in rising order, a constant is remembered at the lowest of its places. -/
theorem foldl_note_lowest {entries : Entries} {constant : Constant} {i : UInt16} :
    ∀ (indexes : List UInt16) (places : Std.TreeMap Constant UInt16),
    indexes.Pairwise (·.toNat < ·.toNat) →
    (∀ place, places[constant]? = some place → ∀ index ∈ indexes, place.toNat ≤ index.toNat) →
    i ∈ indexes → entries.constantAt? i.toNat = some constant →
    ∃ index, (indexes.foldl (note entries) places)[constant]? = some index ∧ index.toNat ≤ i.toNat
  | index :: indexes, places, rising, low, among, stands => by
    obtain ⟨first, rest⟩ := List.pairwise_cons.1 rising
    rw [List.foldl_cons]
    rcases List.mem_cons.1 among with rfl | later
    · -- The constant stands here, so by now it has a place, and no other one comes.
      have noted : ∃ place, (note entries places i)[constant]? = some place ∧
          place.toNat ≤ i.toNat := by
        cases known : places[constant]? with
        | some place => exact ⟨place, note_kept known, low place known i List.mem_cons_self⟩
        | none =>
          refine ⟨i, ?_, Nat.le_refl _⟩
          unfold note
          rw [stands]
          simp only [Std.TreeMap.getElem?_insertIfNew]
          rw [if_pos]
          refine ⟨Std.ReflCmp.compare_self, fun there => ?_⟩
          rw [Std.TreeMap.mem_iff_isSome_getElem?, known] at there
          cases there
      obtain ⟨place, known, small⟩ := noted
      exact ⟨place, foldl_note_kept indexes known, small⟩
    · refine foldl_note_lowest indexes _ rest ?_ later stands
      intro place known other within
      unfold note at known
      split at known
      · rw [Std.TreeMap.getElem?_insertIfNew] at known
        split at known
        · cases known
          exact Nat.le_of_lt (first other within)
        · exact low place known other (List.mem_cons_of_mem _ within)
      · exact low place known other (List.mem_cons_of_mem _ within)

/-- The indexes of a table, all but the first. -/
theorem toNat_ofNat_of_mem {size i : Nat} (small : size ≤ 0xFFFF)
    (among : i ∈ (List.range size).drop 1) : (UInt16.ofNat i).toNat = i := by
  have within := List.mem_range.1 (List.mem_of_mem_drop among)
  simp only [UInt16.toNat_ofNat']
  omega

theorem ofEntries_complete {entries : Entries} (first : entries[0]? = some .unusable)
    (small : entries.size ≤ 0xFFFF) (closed : entries.Closed) : (ofEntries entries).Complete := by
  have filled : 0 < entries.size := (Array.getElem?_eq_some_iff.1 first).1
  have empty : entries.isEmpty = false := by
    rw [Array.isEmpty_eq_false_iff]
    rintro rfl
    cases first
  have table := entries_ofEntries empty
  refine ⟨ofEntries_sound entries, by rwa [table], ?_⟩
  intro constant i stands
  rw [table] at stands
  obtain ⟨entry, found, means⟩ := (Entries.constantAt?_eq_some _ _ _).1 stands
  have within := (Array.getElem?_eq_some_iff.1 found).1
  have behind : 0 < i := by
    rcases Nat.eq_zero_or_pos i with rfl | positive
    · rw [first] at found
      cases found
      cases means
    · exact positive
  have among : i ∈ (List.range entries.size).drop 1 := by
    rw [List.range_eq_range', List.drop_range']
    simp only [List.mem_range'_1]
    omega
  have same := toNat_ofNat_of_mem small among
  have places : (ofEntries entries).places =
      (((List.range entries.size).drop 1).map UInt16.ofNat).foldl (note entries) ∅ := by
    rw [ofEntries, empty]
    rfl
  -- Indexes are noted in rising order and never noted anew, so the lowest one stays.
  have rising : ((List.range entries.size).drop 1).Pairwise (· < ·) :=
    List.pairwise_lt_range.drop
  have indexes : (((List.range entries.size).drop 1).map UInt16.ofNat).Pairwise
      (·.toNat < ·.toNat) := by
    rw [List.pairwise_map]
    refine rising.imp_of_mem fun left right less => ?_
    rwa [toNat_ofNat_of_mem small left, toNat_ofNat_of_mem small right]
  have again : entries.constantAt? (UInt16.ofNat i).toNat = some constant := by rwa [same]
  have lowest := foldl_note_lowest _ ∅ indexes (fun place known => by simp at known)
    (List.mem_map_of_mem among) again
  rwa [same, ← places] at lowest

/-! ## Pools that gain what they lack -/

end ConstantPool

/-- Interning a constant interns its parts before it, and those are of a lower rank. -/
def Constant.rank : Constant → Nat
  | .utf8 _ => 0
  | .field _ | .method _ | .interfaceMethod _ | .invokeDynamic _ _ _ => 2
  | _ => 1

namespace ConstantPool

/-- The pool has grown by constants of a rank below `rank`, none of which had a place. -/
inductive Filled (rank : Nat) (first : ConstantPool) : ConstantPool → Prop
  | refl : Filled rank first first
  | push {pool : ConstantPool} {constant : Constant} {entry : Entry}
      (filled : Filled rank first pool) (low : constant.rank < rank)
      (fresh : pool.places[constant]? = none)
      (stands : pool.entries.constant? entry = some constant)
      (room : pool.entries.size + entry.slots ≤ 0xFFFF) :
      Filled rank first (pool.push constant entry)

namespace Filled

variable {rank more : Nat} {first second third : ConstantPool}

theorem trans (early : first.Filled rank second) (late : second.Filled rank third) :
    first.Filled rank third := by
  induction late with
  | refl => exact early
  | push _ low fresh stands room ih => exact ih.push low fresh stands room

theorem mono (filled : first.Filled rank second) (le : rank ≤ more) : first.Filled more second := by
  induction filled with
  | refl => exact .refl
  | push _ low fresh stands room ih => exact ih.push (Nat.lt_of_lt_of_le low le) fresh stands room

theorem grown (filled : first.Filled rank second) : first.Grown second := by
  induction filled with
  | refl => exact .refl
  | push _ _ _ stands room ih => exact ih.push stands room

theorem complete (filled : first.Filled rank second) (complete : first.Complete) :
    second.Complete := by
  induction filled with
  | refl => exact complete
  | push _ _ fresh stands room ih => exact ih.push fresh stands room

/-- Constants of the rank and above stay where they are, and stay away. -/
theorem places (filled : first.Filled rank second) {constant : Constant}
    (high : rank ≤ constant.rank) : second.places[constant]? = first.places[constant]? := by
  induction filled with
  | refl => rfl
  | @push pool other entry _ low _ _ _ ih =>
    simp only [ConstantPool.push, Std.TreeMap.getElem?_insert]
    rw [if_neg, ih]
    intro same
    rw [Std.compare_eq_iff_eq.1 same] at low
    omega

end Filled

end ConstantPool

namespace Interning

variable {α β : Type} {rank : Nat}

/-- From a sound pool the step adds what it lacks, of a rank below `rank`; it fails only for want of
room. -/
def Fills (rank : Nat) (step : Interning α) : Prop :=
  ∀ pool : ConstantPool, pool.Sound → pool.Filled rank (step pool).2 ∧
    ∀ cause, (step pool).1 = .error cause → cause = .poolOverflow

namespace Fills

theorem pure (value : α) : Fills rank (pure value) :=
  fun _ _ => ⟨.refl, fun _ same => by cases same⟩

theorem bind {step : Interning α} {next : α → Interning β} (fills : Fills rank step)
    (goesOn : ∀ value, Fills rank (next value)) : Fills rank (step >>= next) := by
  intro pool sound
  obtain ⟨filled, failed⟩ := fills pool sound
  rw [bind_run]
  match run : step pool with
  | (.ok value, middle) =>
    rw [run] at filled
    obtain ⟨later, failed⟩ := goesOn value middle (filled.grown.sound sound)
    exact ⟨filled.trans later, failed⟩
  | (.error cause, middle) =>
    rw [run] at filled failed
    exact ⟨filled, fun _ same => by cases same; exact failed cause rfl⟩

/-- A constant whose parts are of a lower rank than itself. -/
theorem place {constant : Constant} {entry : Interning Entry} (fills : Fills constant.rank entry)
    (leads : ∀ pool : ConstantPool, pool.Sound →
      Leads entry pool fun entry after => after.entries.constant? entry = some constant) :
    Fills (constant.rank + 1) (place constant entry) := by
  intro pool sound
  rw [place_run]
  cases missing : pool.places[constant]? with
  | some index => exact ⟨.refl, fun _ same => by cases same⟩
  | none =>
    obtain ⟨filled, failed⟩ := fills pool sound
    have stands := (leads pool sound).2
    -- Interning the parts adds constants of lower rank only, so this one still has no place.
    have fresh : (entry pool).2.places[constant]? = pool.places[constant]? :=
      filled.places (Nat.le_refl _)
    have filled := filled.mono (Nat.le_succ _)
    simp only
    rw [bind_run]
    match run : entry pool with
    | (.error cause, middle) =>
      rw [run] at filled failed
      exact ⟨filled, fun _ same => by cases same; exact failed cause rfl⟩
    | (.ok found, middle) =>
      rw [run] at filled fresh stands
      simp only [append]
      split
      · rename_i room
        exact ⟨filled.push (Nat.lt_succ_self _) (fresh.trans missing) (stands found rfl) room,
          fun _ same => by cases same⟩
      · exact ⟨filled, fun _ same => by cases same; rfl⟩

end Fills

/-! ## All constants -/

/-- The place of any constant. -/
def constant : Constant → Interning UInt16
  | .utf8 text => utf8 text
  | .int value => int value
  | .float bits => float bits
  | .long value => long value
  | .double bits => double bits
  | .class name => className name
  | .string text => string text
  | .nameAndType name descriptor => nameAndType name descriptor
  | .field target => field target
  | .method target => method target false
  | .interfaceMethod target => method target true
  | .methodType descriptor => methodType descriptor
  | .invokeDynamic bootstrap name descriptor => invokeDynamic bootstrap name descriptor

/-- The entry that is written for a constant without a place, its parts interned. -/
def entryOf : Constant → Interning Entry
  | .utf8 text => return .utf8 text
  | .int value => return .int value
  | .float bits => return .float bits
  | .long value => return .long value
  | .double bits => return .double bits
  | .class name => do return .class (← utf8 name)
  | .string text => do return .string (← utf8 text)
  | .nameAndType name descriptor => do
    return .nameAndType (← utf8 name) (← utf8 descriptor)
  | .field target => do
    let (owner, nameAndType) ← member target
    return .field owner nameAndType
  | .method target => do
    let (owner, nameAndType) ← member target
    return .method owner nameAndType
  | .interfaceMethod target => do
    let (owner, nameAndType) ← member target
    return .interfaceMethod owner nameAndType
  | .methodType descriptor => do return .methodType (← utf8 descriptor)
  | .invokeDynamic bootstrap name descriptor => do
    return .invokeDynamic bootstrap (← nameAndType name descriptor)

theorem constant_eq_place (wanted : Constant) : constant wanted = place wanted (entryOf wanted) := by
  cases wanted <;> rfl

theorem entryOf_leads {pool : ConstantPool} (sound : pool.Sound) (wanted : Constant) :
    Leads (entryOf wanted) pool fun entry after => after.entries.constant? entry = some wanted := by
  cases wanted with
  | utf8 | int | float | long | double => exact .pure rfl
  | «class» name =>
    exact entryOfText_leads sound name .class fun _ _ found => by simp [Entries.constant?, found]
  | string text =>
    exact entryOfText_leads sound text .string fun _ _ found => by simp [Entries.constant?, found]
  | methodType descriptor =>
    exact entryOfText_leads sound descriptor .methodType fun _ _ found => by
      simp [Entries.constant?, found]
  | nameAndType name descriptor => exact entryOfNames_leads sound name descriptor
  | field target =>
    exact entryOfMember_leads sound target .field fun _ _ _ found => by
      simp [Entries.constant?, found]
  | method target =>
    exact entryOfMember_leads sound target .method fun _ _ _ found => by
      simp [Entries.constant?, found]
  | interfaceMethod target =>
    exact entryOfMember_leads sound target .interfaceMethod fun _ _ _ found => by
      simp [Entries.constant?, found]
  | invokeDynamic bootstrap name descriptor =>
    exact entryOfCall_leads sound bootstrap name descriptor

theorem constant_leads {pool : ConstantPool} (sound : pool.Sound) (wanted : Constant) :
    Leads (constant wanted) pool fun index after => after.Holds wanted index := by
  rw [constant_eq_place]
  exact place_leads sound (entryOf_leads sound wanted)

/-- Once the entry of a constant is known to add constants of lower rank only, so is its place. -/
theorem constant_fills_of_entryOf (wanted : Constant) (fills : Fills wanted.rank (entryOf wanted)) :
    Fills (wanted.rank + 1) (constant wanted) := by
  rw [constant_eq_place]
  exact fills.place fun _ sound => entryOf_leads sound wanted

theorem utf8_fills (text : String) : Fills 1 (utf8 text) :=
  constant_fills_of_entryOf (.utf8 text) (.pure _)

theorem className_fills (name : String) : Fills 2 (className name) :=
  constant_fills_of_entryOf (.class name) ((utf8_fills name).bind fun _ => .pure _)

theorem nameAndType_fills (name descriptor : String) : Fills 2 (nameAndType name descriptor) :=
  constant_fills_of_entryOf (.nameAndType name descriptor)
    ((utf8_fills name).bind fun _ => (utf8_fills descriptor).bind fun _ => .pure _)

theorem member_fills (target : MemberRef) : Fills 2 (member target) :=
  (className_fills target.owner).bind fun _ =>
    (nameAndType_fills target.name target.descriptor).bind fun _ => .pure _

/-- The parts of a constant are of lower rank. -/
theorem entryOf_fills (wanted : Constant) : Fills wanted.rank (entryOf wanted) := by
  cases wanted with
  | utf8 | int | float | long | double => exact .pure _
  | «class» text | string text | methodType text =>
    exact (utf8_fills text).bind fun _ => .pure _
  | nameAndType name descriptor =>
    exact (utf8_fills name).bind fun _ => (utf8_fills descriptor).bind fun _ => .pure _
  | field target | method target | interfaceMethod target =>
    exact (member_fills target).bind fun _ => .pure _
  | invokeDynamic bootstrap name descriptor =>
    exact (nameAndType_fills name descriptor).bind fun _ => .pure _

theorem constant_fills (wanted : Constant) : Fills (wanted.rank + 1) (constant wanted) :=
  constant_fills_of_entryOf wanted (entryOf_fills wanted)

end Interning

/-! ## Requests one after the other -/

namespace ConstantPool

/-- A pool as it is before anything is interned, and the table it has then. -/
inductive Begins : Entries → ConstantPool → Prop
  | new : Begins #[.unusable] empty
  | table (entries : Entries) (first : entries[0]? = some .unusable)
      (small : entries.size ≤ 0xFFFF) : Begins entries (ofEntries entries)

theorem Begins.entries_eq {table : Entries} {pool : ConstantPool} (begins : pool.Begins table) :
    pool.entries = table := by
  cases begins with
  | new => rfl
  | table _ first =>
    refine entries_ofEntries ?_
    rw [Array.isEmpty_eq_false_iff]
    rintro rfl
    cases first

/-- The pool after requests for constants, each answered whatever came of the others. -/
def requested (requests : List Constant) (pool : ConstantPool) : ConstantPool :=
  requests.foldl (fun pool wanted => (Interning.constant wanted pool).2) pool

theorem requested_grown : ∀ (requests : List Constant) {pool : ConstantPool}, pool.Sound →
    pool.Grown (requested requests pool)
  | [], _, _ => .refl
  | wanted :: requests, _, sound =>
    have grown := (Interning.constant_leads sound wanted).1
    grown.trans (requested_grown requests (grown.sound sound))

theorem requested_complete : ∀ (requests : List Constant) {pool : ConstantPool}, pool.Complete →
    (requested requests pool).Complete
  | [], _, complete => complete
  | wanted :: requests, pool, complete =>
    have filled := (Interning.constant_fills wanted pool complete.sound).1
    requested_complete requests (filled.complete complete)

theorem Begins.sound {table : Entries} {pool : ConstantPool} (begins : pool.Begins table) :
    pool.Sound := by
  cases begins with
  | new => exact empty_sound
  | table => exact ofEntries_sound table

theorem Begins.complete {table : Entries} {pool : ConstantPool} (begins : pool.Begins table)
    (closed : table.Closed) : pool.Complete := by
  cases begins with
  | new =>
    show (ofEntries #[.unusable]).Complete
    exact ofEntries_complete rfl (by decide) closed
  | table _ first small => exact ofEntries_complete first small closed

theorem Begins.size_le {table : Entries} {pool : ConstantPool} (begins : pool.Begins table) :
    table.size ≤ 0xFFFF := by
  cases begins with
  | new => decide
  | table _ _ small => exact small

namespace Grown

variable {first second : ConstantPool}

theorem size_le (grown : first.Grown second) (small : first.entries.size ≤ 0xFFFF) :
    second.entries.size ≤ 0xFFFF := by
  induction grown with
  | refl => exact small
  | push _ _ room _ => rwa [size_push]

/-- A wide entry that was appended has its second index behind it. -/
theorem wide (grown : first.Grown second) {i : Nat} {entry : Entry}
    (new : first.entries.size ≤ i) (found : second.entries[i]? = some entry)
    (wide : entry.slots = 2) : second.entries[i + 1]? = some .unusable := by
  induction grown with
  | refl => exact absurd (Array.getElem?_eq_some_iff.1 found).1 (Nat.not_lt.2 new)
  | @push pool constant other grown _ _ ih =>
    have extends_ := pool.push_extends constant other
    rcases Nat.lt_or_ge i pool.entries.size with old | behind
    · rw [extends_.getElem?_of_lt old] at found
      exact extends_.getElem? (ih found)
    · rcases pool.getElem?_push constant other behind found with ⟨rfl, rfl⟩ | ⟨_, _, rfl⟩
      · rw [← Array.getElem?_toList, entries_push, Entry.spread, if_pos wide,
          List.getElem?_append_right (by rw [Array.length_toList]; omega), Array.length_toList,
          Nat.add_sub_cancel_left]
        rfl
      · cases wide

end Grown

end ConstantPool

open ConstantPool

/-- What a request for a constant comes to, in a pool that began with `table` and is `before` now;
`final` is the pool after later requests. -/
structure Interning.Settles (table : Entries) (before : ConstantPool) (wanted : Constant)
    (answer : Except WriteError UInt16 × ConstantPool) (final : ConstantPool) : Prop where
  kept : before.entries.Extends answer.2.entries
  holds : ∀ index, answer.1 = .ok index → answer.2.Holds wanted index ∧ final.Holds wanted index
  refused : ∀ cause, answer.1 = .error cause → cause = .poolOverflow
  small : answer.2.entries.size ≤ 0xFFFF
  wide : ∀ (i : Nat) (entry : Entry), table.size ≤ i → answer.2.entries[i]? = some entry →
    entry.slots = 2 → answer.2.entries[i + 1]? = some .unusable
  reused : table.Closed → ∀ i, before.entries.constantAt? i = some wanted →
    ∃ lowest, answer = (.ok lowest, before) ∧ before.Holds wanted lowest ∧
      ∀ j < lowest.toNat, before.entries.constantAt? j ≠ some wanted

/-- **A constant has one place and keeps it.**  This is what any request comes to, among any others
before and after it. -/
theorem ConstantPool.intern_settles {table : Entries} {first : ConstantPool}
    (begins : first.Begins table) (early late : List Constant) (wanted : Constant) :
    Interning.Settles table (requested early first) wanted
      (Interning.constant wanted (requested early first))
      (requested late (Interning.constant wanted (requested early first)).2) := by
  have before := requested_grown early begins.sound
  have sound := before.sound begins.sound
  obtain ⟨grown, holds⟩ := Interning.constant_leads sound wanted
  have whole := before.trans grown
  have table_ := begins.entries_eq
  refine ⟨grown.extends_, ?_, ?_, ?_, ?_, ?_⟩
  · intro index same
    have there := holds index same
    exact ⟨there, there.grown (requested_grown late (grown.sound sound))⟩
  · exact (Interning.constant_fills wanted _ sound).2
  · refine whole.size_le ?_
    rw [table_]
    exact begins.size_le
  · intro i entry new found wide
    rw [← table_] at new
    exact whole.wide new found wide
  -- Only a table whose references are all resolved gives back the places it came with.
  · intro closed i stands
    have complete := requested_complete early (begins.complete closed)
    obtain ⟨lowest, known, _⟩ := complete.lowest wanted i stands
    refine ⟨lowest, ?_, complete.sound _ _ known, ?_⟩
    · rw [Interning.constant_eq_place, Interning.place_run, known]
    · intro j lower there
      obtain ⟨index, again, low⟩ := complete.lowest wanted j there
      cases known.symm.trans again
      omega

/-- A table whose class comes before its name, and twice. -/
def Sample.table : Entries := #[.unusable, .class 2, .utf8 "A", .class 2]

/-- After a number that takes two indexes, the class is found at the lower of its places. -/
theorem ConstantPool.intern_settles_class : (ofEntries Sample.table).Begins Sample.table ∧
    Interning.Settles Sample.table (requested [.long 5] (ofEntries Sample.table)) (.class "A")
      (Interning.constant (.class "A") (requested [.long 5] (ofEntries Sample.table)))
      (requested [.string "A"]
        (Interning.constant (.class "A") (requested [.long 5] (ofEntries Sample.table))).2) := by
  have begins : (ofEntries Sample.table).Begins Sample.table :=
    .table Sample.table (by decide) (by decide)
  exact ⟨begins, intern_settles begins [.long 5] [.string "A"] (.class "A")⟩

end ClassWeave
