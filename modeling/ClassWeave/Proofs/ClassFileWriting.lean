/-
# ClassWeave.Proofs.ClassFileWriting -- a class file written with another pool and other code

A class file is told by its bytes as long as its parts fit the numbers that the format
has for them.  `Entries.Storable` says it of a constant pool and `ClassFile.FitsWith` of
the tables of a class, whose attributes have to go by the names that their indexes lead
to in the pool they are written with.  Nothing else can go wrong: such a class is
written, and read back as it was but for the pool and the code it was given
(`ClassFile.read_write_recoded`).  New code may be longer than an attribute can be; it is
written all the same, and is not read back.
-/
import ClassWeave.Proofs.Weaving

set_option autoImplicit false

namespace ClassWeave

/-! ## The pool -/

/-- Unusable entries stand at index zero and behind every long or double, and nowhere else; the pool
is no larger than its count can say, and no text longer. -/
structure Entries.Storable (entries : Entries) : Prop where
  first : entries[0]? = some .unusable
  gaps : ∀ i, entries[i + 1]? = some .unusable ↔ ∃ wide, entries[i]? = some wide ∧ wide.slots = 2
  few : entries.size ≤ 0xFFFF
  texts : ∀ text, .utf8 text ∈ entries → (Text.ModifiedUtf8.encode text).length ≤ 0xFFFF

namespace Entry

theorem write_ok {entry : Entry}
    (short : ∀ text, entry = .utf8 text → (Text.ModifiedUtf8.encode text).length ≤ 0xFFFF) :
    ∃ bytes, entry.write = .ok bytes := by
  cases entry with
  | utf8 text =>
    have room := Nat.not_lt.2 (short text rfl)
    exact ⟨_, by rw [write, if_neg room]⟩
  | _ => exact ⟨_, rfl⟩

/-- Entries with a gap behind every wide one, and no other gaps, are the usable ones spread out. -/
theorem exists_spread : ∀ table : List Entry, table[0]? ≠ some .unusable →
    (∀ i, table[i + 1]? = some .unusable ↔ ∃ wide, table[i]? = some wide ∧ wide.slots = 2) →
    ∃ parts : List Entry, (∀ entry ∈ parts, entry ≠ .unusable) ∧ table = parts.flatMap spread
  | [], _, _ => ⟨[], by simp, rfl⟩
  | [entry], usable, gaps => by
    have narrow : entry.slots ≠ 2 := by
      intro wide
      have gap := (gaps 0).2 ⟨entry, rfl, wide⟩
      cases gap
    refine ⟨[entry], by simpa using usable, ?_⟩
    simp [spread, narrow]
  | entry :: second :: rest, usable, gaps => by
    have own : entry ≠ .unusable := by simpa using usable
    -- A gap follows a wide entry and no other, so the entries are cut off from the front.
    by_cases wide : entry.slots = 2
    · have gap : second = .unusable := by simpa using (gaps 0).2 ⟨entry, rfl, wide⟩
      subst gap
      have next : rest[0]? ≠ some .unusable := by
        intro again
        obtain ⟨before, same, twice⟩ := (gaps 1).1 again
        cases same
        cases twice
      obtain ⟨parts, others, split⟩ := exists_spread rest next fun i => gaps (i + 2)
      refine ⟨entry :: parts, ?_, ?_⟩
      · simpa using ⟨own, others⟩
      · rw [List.flatMap_cons, ← split, spread, if_pos wide]
        rfl
    · have next : (second :: rest)[0]? ≠ some .unusable := by
        intro gap
        obtain ⟨before, same, twice⟩ := (gaps 0).1 gap
        cases same
        exact wide twice
      obtain ⟨parts, others, split⟩ := exists_spread (second :: rest) next fun i => gaps (i + 1)
      refine ⟨entry :: parts, ?_, ?_⟩
      · simpa using ⟨own, others⟩
      · rw [List.flatMap_cons, ← split, spread, if_neg wide]
        rfl

end Entry

namespace Entries.Storable

variable {entries : Entries} (storable : entries.Storable)

include storable

theorem slotted : entries.Slotted := by
  obtain ⟨table⟩ := entries
  have first := storable.first
  have gaps := storable.gaps
  simp only [List.getElem?_toArray] at first gaps
  cases table with
  | nil => cases first
  | cons entry rest =>
    cases first
    have usable : rest[0]? ≠ some .unusable := by
      intro gap
      obtain ⟨before, same, twice⟩ := (gaps 0).1 gap
      cases same
      cases twice
    obtain ⟨parts, others, split⟩ := Entry.exists_spread rest usable fun i => gaps (i + 1)
    exact ⟨parts, others, by rw [split]⟩

theorem write_ok : ∃ bytes, entries.write = .ok bytes := by
  have each : ∀ entry ∈ entries.toList.drop 1, ∃ bytes, entry.write = .ok bytes := by
    intro entry among
    refine Entry.write_ok fun text same => storable.texts text ?_
    rw [← same]
    exact Array.mem_def.2 (List.mem_of_mem_drop among)
  obtain ⟨pieces, written⟩ := Outcome.mapM_total each
  have room := Nat.not_lt.2 storable.few
  refine ⟨Bytes.count entries.size ++ pieces.flatten, ?_⟩
  unfold write
  rw [if_neg room]
  exact Outcome.bind_eq_ok.2 ⟨pieces, written, rfl⟩

end Entries.Storable

/-! ## The class -/

namespace ClassFile

/-- The class file with the entries of `entries`, and with `payload? i` for the payload of every
attribute of method number `i` that is named for code, if there is one. -/
def recoded (file : ClassFile) (entries : Entries) (payload? : Nat → Option Bytes) : ClassFile :=
  { file with
    entries := entries
    methods := file.methods.mapIdx fun i method =>
      { method with
        attributes := method.attributes.map fun given =>
          if given.name = "Code" then { given with payload := (payload? i).getD given.payload }
          else given } }

/-- The tables of a class can be counted, and its attributes told in terms of `entries`. -/
structure FitsWith (file : ClassFile) (entries : Entries) : Prop where
  interfaces : file.interfaces.length < 0x10000
  fields : Member.TableFits entries file.fields
  methods : Member.TableFits entries file.methods
  attributes : Attribute.TableFits entries file.attributes

variable {file : ClassFile} {entries : Entries}

theorem rewritten_eq_recoded (file : ClassFile) (entries : Entries)
    (payload? : Nat → Option Bytes) :
    file.rewritten entries payload? = file.recoded entries payload? := by
  unfold rewritten recoded methodsWith
  congr 1
  rw [List.mapIdx_eq_zipIdx_map]
  refine List.map_congr_left fun numbered _ => ?_
  obtain ⟨method, i⟩ := numbered
  cases known : payload? i with
  | none => simp [known]
  | some payload =>
    simp only [known, Member.withCode, Option.getD_some]
    congr 1

/-- New code does not keep the tables of a class from fitting, unless it is too long. -/
theorem FitsWith.recoded (fits : file.FitsWith entries) (slotted : entries.Slotted)
    {payload? : Nat → Option Bytes}
    (short : ∀ method ∈ (file.recoded entries payload?).methods, ∀ given ∈ method.attributes,
      given.payload.length < 2 ^ 32) : (file.recoded entries payload?).Fits := by
  refine ⟨slotted, fits.interfaces, fits.fields, ⟨?_, ?_⟩, fits.attributes⟩
  · show (file.methods.mapIdx _).length < 0x10000
    rw [List.length_mapIdx]
    exact fits.methods.few
  · intro method among
    obtain ⟨i, known, same⟩ := List.mem_mapIdx.1 among
    have held := fits.methods.each file.methods[i] (List.getElem_mem known)
    have own := short method among
    subst same
    refine ⟨?_, ?_⟩
    · simpa using held.few
    · intro given within
      refine ⟨?_, own given within⟩
      obtain ⟨old, first, same⟩ := List.mem_map.1 within
      have name := (held.each old first).name
      split at same <;> subst same <;> exact name

theorem write_ok (file : ClassFile) (storable : entries.Storable) (payload? : Nat → Option Bytes) :
    ∃ bytes, file.write entries payload? = .ok bytes := by
  obtain ⟨pool, stored⟩ := storable.write_ok
  exact ⟨_, Outcome.bind_eq_ok.2 ⟨pool, stored, rfl⟩⟩

/-- **A class is written with another pool and other code, and read back as just that**, whatever
bytes follow.  Only new code can keep it from being read back: its length has to fit the four
bytes that the format has for it. -/
theorem read_write_recoded (file : ClassFile) (entries : Entries) (storable : entries.Storable)
    (fits : file.FitsWith entries) (payload? : Nat → Option Bytes) :
    ∃ bytes, file.write entries payload? = .ok bytes ∧
      ((∀ rest, read (bytes ++ rest) = .ok (file.recoded entries payload?)) ↔
        ∀ method ∈ (file.recoded entries payload?).methods, ∀ given ∈ method.attributes,
          given.payload.length < 2 ^ 32) := by
  obtain ⟨bytes, written⟩ := write_ok file storable payload?
  refine ⟨bytes, written, ?_, ?_⟩
  · intro again method among given within
    have whole := fits_of_read (again [])
    exact ((whole.methods.each method among).each given within).length
  · intro short rest
    have whole := fits.recoded storable.slotted short
    have same := write_rewritten file entries payload?
    rw [rewritten_eq_recoded, written] at same
    exact (reads_write whole same).run rest

/-- A pool whose last constant is a double. -/
def Sample.pool : Entries :=
  #[.unusable, .utf8 "Code", .long (-1), .unusable, .utf8 "\x00\u00e9", .double 0x7FF8000000000001,
    .unusable]

/-- A class with one method, whose code is next to an attribute with another name. -/
def Sample.bare : ClassFile :=
  ⟨0, 52, #[], 0x21, 0, 0, [], [], [⟨8, 4, 4, [⟨1, "Code", [1, 2]⟩, ⟨4, "\x00\u00e9", [3]⟩]⟩], []⟩

theorem Sample.pool_storable : pool.Storable := by
  refine ⟨rfl, ?_, by decide, ?_⟩
  · intro i
    rcases i with _ | _ | _ | _ | _ | _ | _ | i <;> simp [pool, Entry.slots]
  · intro text among
    simp only [pool, Array.mem_def, List.mem_cons, Entry.utf8.injEq, reduceCtorEq,
      false_or, List.not_mem_nil, or_false] at among
    rcases among with rfl | rfl <;> decide +kernel

theorem Sample.bare_fitsWith : bare.FitsWith pool := by
  refine ⟨by decide, ⟨by decide, by simp [bare]⟩, ⟨by decide, ?_⟩, by decide, by simp [bare]⟩
  intro method among
  obtain rfl := List.mem_singleton.1 among
  refine ⟨by decide, ?_⟩
  intro given within
  simp only [List.mem_cons, List.not_mem_nil, or_false] at within
  rcases within with rfl | rfl <;> exact ⟨rfl, by simp⟩

theorem read_write_recoded_bare :
    Sample.pool.Storable ∧ Sample.bare.FitsWith Sample.pool ∧
      ∃ bytes, Sample.bare.write Sample.pool (fun _ => some [7]) = .ok bytes ∧
        ((∀ rest, read (bytes ++ rest) = .ok (Sample.bare.recoded Sample.pool fun _ => some [7])) ↔
          ∀ method ∈ (Sample.bare.recoded Sample.pool fun _ => some [7]).methods,
            ∀ given ∈ method.attributes, given.payload.length < 2 ^ 32) :=
  ⟨Sample.pool_storable, Sample.bare_fitsWith, read_write_recoded Sample.bare Sample.pool
    Sample.pool_storable Sample.bare_fitsWith fun _ => some [7]⟩

/-- No bytes are read as a class with code that is too long. -/
theorem recoded_unread {payload? : Nat → Option Bytes} {i : Nat} {method : Member}
    (numbered : file.methods[i]? = some method) {given : Attribute}
    (among : given ∈ method.attributes) (named : given.name = "Code") {payload : Bytes}
    (new : payload? i = some payload) (long : 2 ^ 32 ≤ payload.length) (bytes : Bytes) :
    read bytes ≠ .ok (file.recoded entries payload?) := by
  intro again
  obtain ⟨inside, same⟩ := List.getElem?_eq_some_iff.1 numbered
  subst same
  have whole := (fits_of_read again).methods.each _ (List.mem_mapIdx.2 ⟨i, inside, rfl⟩)
  have short := (whole.each _ (List.mem_map_of_mem among)).length
  rw [if_pos named, new] at short
  exact Nat.not_lt.2 long short

/-- Two to the power of 32 bytes are one more than the length of an attribute can be. -/
def Sample.overlong : Bytes := List.replicate (2 ^ 32) 0

theorem overlong_code_unread : Sample.pool.Storable ∧ Sample.bare.FitsWith Sample.pool ∧
    ∃ bytes, Sample.bare.write Sample.pool (fun _ => some Sample.overlong) = .ok bytes ∧
      read bytes ≠ .ok (Sample.bare.recoded Sample.pool fun _ => some Sample.overlong) := by
  obtain ⟨bytes, written⟩ :=
    write_ok Sample.bare Sample.pool_storable fun _ => some Sample.overlong
  have numbered : Sample.bare.methods[0]? =
      some ⟨8, 4, 4, [⟨1, "Code", [1, 2]⟩, ⟨4, "\x00\u00e9", [3]⟩]⟩ := rfl
  have long : 2 ^ 32 ≤ Sample.overlong.length := Nat.le_of_eq List.length_replicate.symm
  exact ⟨Sample.pool_storable, Sample.bare_fitsWith, bytes, written,
    recoded_unread numbered List.mem_cons_self rfl rfl long bytes⟩

end ClassFile

end ClassWeave
