/-
# ClassWeave.Proofs.ClassFileRoundTrip -- a class file read back after it was written

`ClassFile.Fits` says what a class file must be like for its bytes to tell it: tables no
longer than their counts can say, attributes under the names their indexes lead to, and
a constant pool whose wide entries are followed by an unusable one.  Everything that was
read fits (`ClassFile.fits_of_read`), and what fits is read back from what is written
(`ClassFile.reads_write`), whatever bytes follow.

A pool keeps fitting when it grows, and only the length of a payload can stop an
attribute from fitting after it was given a new one.
-/
import ClassWeave.ClassFile.Basic
import ClassWeave.Proofs.ModifiedUtf8
import ClassWeave.Proofs.Outcome
import ClassWeave.Proofs.PoolGrowth
import ClassWeave.Proofs.Reading

set_option autoImplicit false

namespace ClassWeave

/-! ## The constant pool -/

namespace Entry

theorem reads_utf8 {text : String} {bytes : Bytes} (written : write (.utf8 text) = .ok bytes)
    (origin : Nat) : Reads Entry.read origin bytes (.utf8 text) := by
  simp only [write] at written
  split at written
  · cases written
  · rename_i fits
    cases written
    have size : (Text.ModifiedUtf8.encode text).length =
        (UInt16.ofNat (Text.ModifiedUtf8.encode text).length).toNat := by
      simp only [UInt16.toNat_ofNat']
      omega
    refine (Reads.u1 1 origin).bind ((Reads.u2 _ _).bind ((Reads.bytes size _).bindNil ?_))
    simp only [Text.ModifiedUtf8.decode_encode_eq]
    exact Reads.pure _ _

/-- An entry is read back, unless it is the second slot of another. -/
theorem reads_write {entry : Entry} (usable : entry ≠ .unusable) {bytes : Bytes}
    (written : entry.write = .ok bytes) (origin : Nat) : Reads Entry.read origin bytes entry := by
  cases entry with
  | unusable => exact absurd rfl usable
  | utf8 text => exact reads_utf8 written origin
  | int value =>
    cases written
    exact (Reads.u1 3 origin).bind ((Reads.i4 value _).map Entry.int)
  | float bits =>
    cases written
    exact (Reads.u1 4 origin).bind ((Reads.u4 bits _).map Entry.float)
  | long value =>
    cases written
    exact (Reads.u1 5 origin).bind ((Reads.u8 value.toUInt64 _).map fun bits => Entry.long bits.toInt64)
  | double bits =>
    cases written
    exact (Reads.u1 6 origin).bind ((Reads.u8 bits _).map Entry.double)
  | «class» name =>
    cases written
    exact (Reads.u1 7 origin).bind ((Reads.u2 name _).map Entry.class)
  | string text =>
    cases written
    exact (Reads.u1 8 origin).bind ((Reads.u2 text _).map Entry.string)
  | field owner member =>
    cases written
    exact (Reads.u1 9 origin).bind
      ((Reads.u2 owner _).bind ((Reads.u2 member _).map (Entry.field owner)))
  | method owner member =>
    cases written
    exact (Reads.u1 10 origin).bind
      ((Reads.u2 owner _).bind ((Reads.u2 member _).map (Entry.method owner)))
  | interfaceMethod owner member =>
    cases written
    exact (Reads.u1 11 origin).bind
      ((Reads.u2 owner _).bind ((Reads.u2 member _).map (Entry.interfaceMethod owner)))
  | nameAndType name descriptor =>
    cases written
    exact (Reads.u1 12 origin).bind
      ((Reads.u2 name _).bind ((Reads.u2 descriptor _).map (Entry.nameAndType name)))
  | methodHandle kind reference =>
    cases written
    exact (Reads.u1 15 origin).bind
      ((Reads.u1 kind _).bind ((Reads.u2 reference _).map (Entry.methodHandle kind)))
  | methodType descriptor =>
    cases written
    exact (Reads.u1 16 origin).bind ((Reads.u2 descriptor _).map Entry.methodType)
  | dynamic bootstrap member =>
    cases written
    exact (Reads.u1 17 origin).bind
      ((Reads.u2 bootstrap _).bind ((Reads.u2 member _).map (Entry.dynamic bootstrap)))
  | invokeDynamic bootstrap member =>
    cases written
    exact (Reads.u1 18 origin).bind
      ((Reads.u2 bootstrap _).bind ((Reads.u2 member _).map (Entry.invokeDynamic bootstrap)))
  | module name =>
    cases written
    exact (Reads.u1 19 origin).bind ((Reads.u2 name _).map Entry.module)
  | package name =>
    cases written
    exact (Reads.u1 20 origin).bind ((Reads.u2 name _).map Entry.package)

theorem length_le_spread : ∀ parts : List Entry, parts.length ≤ (parts.flatMap spread).length
  | [] => Nat.zero_le _
  | entry :: parts => by
    have slots := entry.slots_pos
    have others := length_le_spread parts
    rw [List.flatMap_cons, List.length_append, length_spread, List.length_cons]
    omega

/-- A second slot is written without bytes. -/
theorem written_spread : ∀ {parts : List Entry} {pieces : List Bytes},
    (parts.flatMap spread).mapM write = .ok pieces →
    ∃ own, List.Forall₂ (fun entry bytes => write entry = .ok bytes) parts own ∧
      pieces.flatten = own.flatten
  | [], pieces, written => by
    cases written
    exact ⟨[], .nil, rfl⟩
  | entry :: parts, pieces, written => by
    rw [List.flatMap_cons, spread] at written
    split at written
    · obtain ⟨first, others, own, rest, rfl⟩ :=
        List.forall₂_cons_left_iff.1 (Outcome.mapM_eq_ok.1 written)
      obtain ⟨second, others, nothing, last, rfl⟩ := List.forall₂_cons_left_iff.1 rest
      cases nothing
      obtain ⟨own', each, same⟩ := written_spread (Outcome.mapM_eq_ok.2 last)
      exact ⟨first :: own', .cons own each, by simp [same]⟩
    · obtain ⟨first, others, own, rest, rfl⟩ :=
        List.forall₂_cons_left_iff.1 (Outcome.mapM_eq_ok.1 written)
      obtain ⟨own', each, same⟩ := written_spread (Outcome.mapM_eq_ok.2 rest)
      exact ⟨first :: own', .cons own each, by simp [same]⟩

/-- Entries, none of them a second slot, are read back one after the other. -/
theorem reads_readUpTo {parts : List Entry} {pieces : List Bytes}
    (each : List.Forall₂ (fun entry bytes => write entry = .ok bytes) parts pieces)
    (usable : ∀ entry ∈ parts, entry ≠ .unusable) (found : Entries) (fuel : Nat)
    (enough : parts.length ≤ fuel) (origin : Nat) :
    Reads (readUpTo (found.size + (parts.flatMap spread).length) found fuel) origin pieces.flatten
      (found ++ (parts.flatMap spread).toArray) := by
  induction each generalizing found fuel origin with
  | nil => cases fuel <;> simpa [readUpTo] using Reads.pure found origin
  | @cons entry bytes parts pieces own rest ih =>
    -- Each entry uses up one step of the reader and fills one or two places of the table.
    obtain ⟨fuel, rfl⟩ := Nat.exists_eq_add_of_lt enough
    have slots := entry.slots_pos
    have wanting : ¬ found.size + ((entry :: parts).flatMap spread).length ≤ found.size := by
      rw [List.flatMap_cons, List.length_append, length_spread]
      omega
    rw [readUpTo, if_neg wanting]
    refine (reads_write (usable entry List.mem_cons_self) own origin).bind ?_
    have taken := ih (fun other among => usable other (List.mem_cons_of_mem _ among))
      (found ++ entry.spread.toArray) (parts.length + fuel) (Nat.le_add_right _ _)
      (origin + bytes.length)
    have same : found ++ entry.spread.toArray ++ (parts.flatMap spread).toArray =
        found ++ ((entry :: parts).flatMap spread).toArray := by simp
    have size : (found ++ entry.spread.toArray).size + (parts.flatMap spread).length =
        found.size + ((entry :: parts).flatMap spread).length := by simp [Nat.add_assoc]
    rw [same, size, spread] at taken
    split
    · rename_i wide
      have pushed : found ++ [entry, unusable].toArray = (found.push entry).push unusable :=
        Array.toList_inj.1 (by simp)
      rwa [if_pos wide, pushed] at taken
    · rename_i narrow
      have pushed : found ++ [entry].toArray = found.push entry := Array.toList_inj.1 (by simp)
      rwa [if_neg narrow, pushed] at taken

end Entry

/-- Every wide entry is followed by an unusable one, and no other entry but the first is unusable. -/
def Entries.Slotted (entries : Entries) : Prop :=
  ∃ parts : List Entry, (∀ entry ∈ parts, entry ≠ .unusable) ∧
    entries.toList = .unusable :: parts.flatMap Entry.spread

theorem Entries.reads_write {entries : Entries} (slotted : entries.Slotted) {bytes : Bytes}
    (written : entries.write = .ok bytes) (origin : Nat) :
    Reads Entries.read origin bytes entries := by
  obtain ⟨parts, usable, table⟩ := slotted
  have size : entries.size = 1 + (parts.flatMap Entry.spread).length := by
    rw [← Array.length_toList, table, List.length_cons, Nat.add_comm]
  unfold Entries.write at written
  split at written
  · cases written
  · rename_i room
    obtain ⟨pieces, each, same⟩ := Outcome.bind_eq_ok.1 written
    cases same
    rw [table, List.drop_one, List.tail_cons] at each
    obtain ⟨own, each, same⟩ := Entry.written_spread each
    have number : (UInt16.ofNat entries.size).toNat = entries.size := by
      simp only [UInt16.toNat_ofNat']
      omega
    -- The fuel of the reader is the number of slots, and no entry takes less than one.
    have few := Entry.length_le_spread parts
    refine (Reads.u2 _ origin).bind ?_
    have taken := Entry.reads_readUpTo each usable #[.unusable] entries.size (by omega) (origin + 2)
    have whole : #[Entry.unusable] ++ (parts.flatMap Entry.spread).toArray = entries := by
      apply Array.toList_inj.1
      simp [table]
    have start : (#[Entry.unusable] : Entries).size + (parts.flatMap Entry.spread).length =
        entries.size := size.symm
    rw [start, whole, ← same, ← number] at taken
    exact taken

theorem Entry.read_usable : Yields Entry.read (· ≠ .unusable) := by
  refine (Yields.any _).bind fun tag _ => ?_
  repeat' refine Yields.ite ?_ ?_
  · refine (Yields.any _).bind fun length _ => (Yields.any _).bind fun bytes _ => ?_
    split
    · exact .pure nofun
    · exact .fail _
  all_goals first
    | exact .fail _
    | exact .map fun _ => nofun
    | exact (Yields.any _).bind fun _ _ => .map fun _ => nofun

theorem Entry.readUpTo_slotted (wanted : Nat) : ∀ (found : Entries) (fuel : Nat),
    found.Slotted → Yields (readUpTo wanted found fuel) Entries.Slotted
  | found, 0, slotted => .pure slotted
  | found, fuel + 1, slotted => by
    rw [readUpTo]
    refine Yields.ite (.pure slotted) (Entry.read_usable.bind fun entry usable => ?_)
    refine readUpTo_slotted wanted _ fuel ?_
    obtain ⟨parts, others, table⟩ := slotted
    refine ⟨parts ++ [entry], ?_, ?_⟩
    · simpa [or_imp, forall_and] using ⟨others, usable⟩
    · rw [List.flatMap_append, List.flatMap_singleton, spread]
      split <;> simp [table]

theorem Entries.read_slotted : Yields Entries.read Slotted :=
  (Yields.any _).bind fun _ _ => Entry.readUpTo_slotted _ _ _ ⟨[], by simp, rfl⟩

/-- A pool that starts with the table of a class file has that table. -/
theorem Entries.Slotted.entries_ofEntries {entries : Entries} (slotted : entries.Slotted) :
    (ConstantPool.ofEntries entries).entries = entries := by
  obtain ⟨parts, _, table⟩ := slotted
  refine ConstantPool.entries_ofEntries ?_
  rw [← Array.isEmpty_toList, table]
  rfl

theorem ConstantPool.Grown.slotted {first second : ConstantPool} (grown : first.Grown second)
    (slotted : first.entries.Slotted) : second.entries.Slotted := by
  induction grown with
  | refl => exact slotted
  | @push pool constant entry _ stands _ ih =>
    obtain ⟨parts, usable, table⟩ := ih
    have own : entry ≠ .unusable := by
      rintro rfl
      cases stands
    refine ⟨parts ++ [entry], ?_, ?_⟩
    · simpa [or_imp, forall_and] using ⟨usable, own⟩
    · rw [entries_push, table, List.flatMap_append, List.flatMap_singleton]
      rfl

/-! ## Attributes and members -/

namespace Attribute

/-- The attribute can be told by its bytes. -/
structure Fits (entries : Entries) (given : Attribute) : Prop where
  name : entries.utf8 given.nameIndex = .ok given.name
  length : given.payload.length < 2 ^ 32

theorem reads_write {entries : Entries} {given : Attribute} (fits : given.Fits entries)
    (origin : Nat) : Reads (read entries) origin given.write given := by
  have size : given.payload.length = (UInt32.ofNat given.payload.length).toNat := by
    have := fits.length
    simp only [UInt32.toNat_ofNat']
    omega
  unfold write
  rw [List.append_assoc]
  refine (Reads.u2 _ origin).bind ((Reads.u4 _ _).bind (Reads.bindLift fits.name ?_))
  exact (Reads.bytes size _).map (Attribute.mk given.nameIndex given.name)

theorem read_fits (entries : Entries) : Yields (read entries) (Fits entries) := by
  refine (Yields.any _).bind fun nameIndex _ => (Yields.any _).bind fun length _ => ?_
  refine (Yields.lift _).bind fun name known => (Yields.bytes _).bind fun payload size => ?_
  exact .pure ⟨known, size ▸ length.toNat_lt⟩

/-- A table of attributes short enough to be counted. -/
structure TableFits (entries : Entries) (attributes : List Attribute) : Prop where
  few : attributes.length < 0x10000
  each : ∀ given ∈ attributes, given.Fits entries

theorem reads_writeTable {entries : Entries} {attributes : List Attribute}
    (fits : TableFits entries attributes) (origin : Nat) :
    Reads (readTable entries) origin (writeTable attributes) attributes :=
  Reads.table attributes origin fits.few fun given among => reads_write (fits.each given among)

theorem readTable_fits (entries : Entries) : Yields (readTable entries) (TableFits entries) :=
  (Yields.table (read_fits entries)).mono fun _ held => ⟨held.1, held.2⟩

end Attribute

namespace Member

theorem reads_write {entries : Entries} {member : Member}
    (fits : Attribute.TableFits entries member.attributes) (origin : Nat) :
    Reads (read entries) origin member.write member := by
  unfold write
  simp only [List.append_assoc]
  refine (Reads.u2 _ origin).bind ((Reads.u2 _ _).bind ((Reads.u2 _ _).bind ?_))
  exact (Attribute.reads_writeTable fits _).map
    (Member.mk member.access member.name member.descriptor)

theorem read_fits (entries : Entries) :
    Yields (read entries) fun member => Attribute.TableFits entries member.attributes := by
  refine (Yields.any _).bind fun access _ => (Yields.any _).bind fun name _ => ?_
  refine (Yields.any _).bind fun descriptor _ => ?_
  exact (Attribute.readTable_fits entries).bind fun attributes fits => .pure fits

/-- A table of fields or methods short enough to be counted. -/
structure TableFits (entries : Entries) (members : List Member) : Prop where
  few : members.length < 0x10000
  each : ∀ member ∈ members, Attribute.TableFits entries member.attributes

theorem reads_table {entries : Entries} {members : List Member}
    (fits : TableFits entries members) (origin : Nat) :
    Reads (Reader.table (read entries)) origin
      (Bytes.count members.length ++ members.flatMap write) members :=
  Reads.table members origin fits.few fun member among => reads_write (fits.each member among)

theorem table_fits (entries : Entries) :
    Yields (Reader.table (read entries)) (TableFits entries) :=
  (Yields.table (read_fits entries)).mono fun _ held => ⟨held.1, held.2⟩

end Member

/-! ## Class files -/

namespace ClassFile

/-- The class file can be told by its bytes. -/
structure Fits (file : ClassFile) : Prop where
  slotted : file.entries.Slotted
  interfaces : file.interfaces.length < 0x10000
  fields : Member.TableFits file.entries file.fields
  methods : Member.TableFits file.entries file.methods
  attributes : Attribute.TableFits file.entries file.attributes

@[simp] theorem methodsWith_none (file : ClassFile) :
    file.methodsWith (fun _ => none) = file.methods := by
  simp [methodsWith]

/-- What was read fits. -/
theorem fits_of_read {bytes : Bytes} {file : ClassFile} (returned : read bytes = .ok file) :
    file.Fits := by
  suffices yields : Yields reader Fits from yields.run returned
  refine (Yields.any _).bind fun found _ => ?_
  have refused : Yields (Reader.fail (.invalidMagic found)) fun _ : Unit => False := .fail _
  refine Yields.ite (refused.bind fun _ none => none.elim) ?_
  refine (Yields.any _).bind fun minor _ => (Yields.any _).bind fun major _ => ?_
  refine Entries.read_slotted.bind fun entries slotted => ?_
  refine (Yields.any _).bind fun access _ => (Yields.any _).bind fun thisClass _ => ?_
  refine (Yields.any _).bind fun superClass _ => ?_
  refine (Yields.table (Yields.any Reader.u2)).bind fun interfaces few => ?_
  refine (Member.table_fits entries).bind fun fields fieldsFit => ?_
  refine (Member.table_fits entries).bind fun methods methodsFit => ?_
  refine (Attribute.readTable_fits entries).bind fun attributes attributesFit => ?_
  exact .pure ⟨slotted, few.1, fieldsFit, methodsFit, attributesFit⟩

theorem reads_write {file : ClassFile} (fits : file.Fits) {bytes : Bytes}
    (written : file.write file.entries (fun _ => none) = .ok bytes) :
    Reads reader 0 bytes file := by
  obtain ⟨pool, stored, same⟩ := Outcome.bind_eq_ok.1 written
  cases same
  simp only [methodsWith_none, List.append_assoc]
  refine (Reads.u4 magic 0).bind ?_
  refine (Reads.u2 _ _).bind ((Reads.u2 _ _).bind ?_)
  refine (Entries.reads_write fits.slotted stored _).bind ?_
  refine (Reads.u2 _ _).bind ((Reads.u2 _ _).bind ((Reads.u2 _ _).bind ?_))
  rw [← List.append_assoc (Bytes.count file.interfaces.length)]
  refine (Reads.table _ _ fits.interfaces fun index _ => Reads.u2 index).bind ?_
  rw [← List.append_assoc (Bytes.count file.fields.length)]
  refine (Member.reads_table fits.fields _).bind ?_
  rw [← List.append_assoc (Bytes.count file.methods.length)]
  refine (Member.reads_table fits.methods _).bind ?_
  exact (Attribute.reads_writeTable fits.attributes _).map
    (ClassFile.mk file.minor file.major file.entries file.access file.thisClass file.superClass
      file.interfaces file.fields file.methods)

theorem read_written {file : ClassFile} (fits : file.Fits) {bytes : Bytes}
    (written : file.write file.entries (fun _ => none) = .ok bytes) : read bytes = .ok file := by
  have run := (reads_write fits written).run []
  rwa [List.append_nil] at run

end ClassFile

end ClassWeave
