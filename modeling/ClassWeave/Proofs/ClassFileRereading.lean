/-
# ClassWeave.Proofs.ClassFileRereading -- a class file written as it was read

`Spells reader formed` says that whatever `reader` returns it took from bytes which are
`formed` like it.  A table is read from the bytes it is written as, a member and an
attribute are, and a pool entry is unless it is a text: that is kept decoded, so only
canonical bytes come back (`Entry.StoredAs`).  The other thing a class file forgets is
the size its pool declared, which a wide entry at the end may overrun.

So bytes that were read are written again just as they were exactly when nothing
followed the class, the pool is as large as it was declared, and every text in it is
canonical (`ClassFile.write_eq_iff`).  `Entries.texts` finds the stored texts in the
bytes by the tags and lengths alone.
-/
import ClassWeave.Proofs.CanonicalText
import ClassWeave.Proofs.ClassFileRoundTrip

set_option autoImplicit false

namespace ClassWeave

/-! ## Numbers -/

namespace Bytes

theorem or_halves (k high : Nat) {low : Nat} (small : low < 2 ^ k) :
    (high <<< k ||| low) >>> k = high ∧ (high <<< k ||| low) % 2 ^ k = low := by
  rw [← Nat.shiftLeft_add_eq_or_of_lt small, Nat.shiftLeft_eq, Nat.shiftRight_eq_div_pow]
  have positive := Nat.two_pow_pos k
  refine ⟨?_, ?_⟩
  · rw [Nat.add_comm, Nat.add_mul_div_right _ _ positive, Nat.div_eq_of_lt small, Nat.zero_add]
  · rw [Nat.add_comm, Nat.add_mul_mod_self_right, Nat.mod_eq_of_lt small]

theorem toNat_join (high low : UInt8) :
    (high.toUInt16 <<< 8 ||| low.toUInt16).toNat = high.toNat <<< 8 ||| low.toNat := by
  have small := high.toNat_lt
  have narrow : high.toNat <<< 8 % 65536 = high.toNat <<< 8 := by
    rw [Nat.shiftLeft_eq]
    omega
  simp [narrow]

theorem u2_join (high low : UInt8) : u2 (high.toUInt16 <<< 8 ||| low.toUInt16) = [high, low] := by
  obtain ⟨upper, lower⟩ := or_halves 8 high.toNat low.toNat_lt
  have first : ((high.toUInt16 <<< 8 ||| low.toUInt16) >>> 8).toUInt8 = high := by
    rw [← UInt8.toNat_inj, UInt16.toNat_toUInt8, UInt16.toNat_shiftRight, toNat_join]
    exact (congrArg (· % 2 ^ 8) upper).trans (Nat.mod_eq_of_lt high.toNat_lt)
  have second : (high.toUInt16 <<< 8 ||| low.toUInt16).toUInt8 = low := by
    rw [← UInt8.toNat_inj, UInt16.toNat_toUInt8, toNat_join]
    exact lower
  rw [u2, first, second]

theorem u4_join (high low : UInt16) :
    u4 (high.toUInt32 <<< 16 ||| low.toUInt32) = u2 high ++ u2 low := by
  have narrow : high.toNat <<< 16 % 4294967296 = high.toNat <<< 16 := by
    have := high.toNat_lt
    rw [Nat.shiftLeft_eq]
    omega
  have whole : (high.toUInt32 <<< 16 ||| low.toUInt32).toNat = high.toNat <<< 16 ||| low.toNat := by
    simp [narrow]
  obtain ⟨upper, lower⟩ := or_halves 16 high.toNat low.toNat_lt
  have first : ((high.toUInt32 <<< 16 ||| low.toUInt32) >>> 16).toUInt16 = high := by
    rw [← UInt16.toNat_inj, UInt32.toNat_toUInt16, UInt32.toNat_shiftRight, whole]
    exact (congrArg (· % 2 ^ 16) upper).trans (Nat.mod_eq_of_lt high.toNat_lt)
  have second : (high.toUInt32 <<< 16 ||| low.toUInt32).toUInt16 = low := by
    rw [← UInt16.toNat_inj, UInt32.toNat_toUInt16, whole]
    exact lower
  rw [u4, first, second]

theorem u8_join (high low : UInt32) :
    u8 (high.toUInt64 <<< 32 ||| low.toUInt64) = u4 high ++ u4 low := by
  have narrow : high.toNat <<< 32 % 18446744073709551616 = high.toNat <<< 32 := by
    have := high.toNat_lt
    rw [Nat.shiftLeft_eq]
    omega
  have whole : (high.toUInt64 <<< 32 ||| low.toUInt64).toNat = high.toNat <<< 32 ||| low.toNat := by
    simp [narrow]
  obtain ⟨upper, lower⟩ := or_halves 32 high.toNat low.toNat_lt
  have first : ((high.toUInt64 <<< 32 ||| low.toUInt64) >>> 32).toUInt32 = high := by
    rw [← UInt32.toNat_inj, UInt64.toNat_toUInt32, UInt64.toNat_shiftRight, whole]
    exact (congrArg (· % 2 ^ 32) upper).trans (Nat.mod_eq_of_lt high.toNat_lt)
  have second : (high.toUInt64 <<< 32 ||| low.toUInt64).toUInt32 = low := by
    rw [← UInt32.toNat_inj, UInt64.toNat_toUInt32, whole]
    exact lower
  rw [u8, first, second]

end Bytes

/-! ## What a reader took -/

/-- Whatever the reader returns was read from bytes that are formed like it. -/
def Spells {α : Type} (reader : Reader α) (formed : α → Bytes → Prop) : Prop :=
  ∀ cursor value after, reader cursor = .ok (value, after) →
    ∃ bytes, cursor.rest = bytes ++ after.rest ∧ formed value bytes

namespace Spells

variable {α β : Type} {reader : Reader α} {next : α → Reader β} {formed : α → Bytes → Prop}
  {fine : β → Bytes → Prop}

theorem pure {value : α} (holds : formed value []) : Spells (pure value) formed := by
  intro cursor found after returned
  cases returned
  exact ⟨[], rfl, holds⟩

theorem bind (spells : Spells reader formed)
    (goesOn : ∀ value first, formed value first →
      Spells (next value) fun result second => fine result (first ++ second)) :
    Spells (reader >>= next) fine := by
  intro cursor result after returned
  obtain ⟨value, middle, read, returned⟩ := Reader.bind_eq_ok.1 returned
  obtain ⟨first, split, holds⟩ := spells _ _ _ read
  obtain ⟨second, split', holds'⟩ := goesOn value first holds _ _ _ returned
  exact ⟨first ++ second, by rw [split, split', List.append_assoc], holds'⟩

theorem map {f : α → β} (spells : Spells reader formed)
    (each : ∀ value bytes, formed value bytes → fine (f value) bytes) :
    Spells (do return f (← reader)) fine :=
  spells.bind fun value first holds => .pure (by rw [List.append_nil]; exact each value first holds)

theorem fail (cause : ReadError) : Spells (Reader.fail cause) formed := by
  intro cursor value after returned
  cases returned

theorem lift (found : Except ReadError α) :
    Spells (Reader.lift found) fun value bytes => found = .ok value ∧ bytes = [] := by
  intro cursor value after returned
  unfold Reader.lift at returned
  split at returned <;> cases returned
  exact ⟨[], rfl, rfl, rfl⟩

theorem ite {condition : Prop} [Decidable condition] {first second : Reader α}
    (left : condition → Spells first formed) (right : ¬ condition → Spells second formed) :
    Spells (if condition then first else second) formed := by
  split
  · exact left ‹_›
  · exact right ‹_›

theorem u1 : Spells Reader.u1 fun value bytes => bytes = [value] := by
  rintro ⟨origin, _ | ⟨b, rest⟩⟩ value after returned
  · cases returned
  · cases returned
    exact ⟨[b], rfl, rfl⟩

theorem u2 : Spells Reader.u2 fun value bytes => bytes = Bytes.u2 value := by
  rintro ⟨origin, _ | ⟨high, _ | ⟨low, rest⟩⟩⟩ value after returned
  · cases returned
  · cases returned
  · cases returned
    exact ⟨[high, low], rfl, (Bytes.u2_join high low).symm⟩

theorem u4 : Spells Reader.u4 fun value bytes => bytes = Bytes.u4 value :=
  u2.bind fun high _ first => u2.map fun low _ second => by
    rw [first, second, Bytes.u4_join]

theorem u8 : Spells Reader.u8 fun value bytes => bytes = Bytes.u8 value :=
  u4.bind fun high _ first => u4.map fun low _ second => by
    rw [first, second, Bytes.u8_join]

theorem i4 : Spells Reader.i4 fun value bytes => bytes = Bytes.i4 value :=
  u4.map fun _ _ same => same

theorem bytes (n : Nat) :
    Spells (Reader.bytes n) fun payload bytes => bytes = payload ∧ payload.length = n := by
  intro cursor payload after returned
  have size := Yields.bytes n cursor payload after returned
  rw [Reader.bytes, Bytes.splitTaking?_eq] at returned
  split at returned
  · rename_i taken rest found
    cases returned
    split at found
    · cases found
      exact ⟨_, (List.take_append_drop n cursor.rest).symm, rfl, size⟩
    · cases found
  · cases returned

variable {write : α → Bytes}

theorem times {item : Reader α} (each : Spells item fun value bytes => bytes = write value) :
    ∀ (n : Nat) (found : List α), Spells (Reader.times item n found) fun values bytes =>
      ∃ own : List α, values = found.reverse ++ own ∧ own.length = n ∧ bytes = own.flatMap write
  | 0, found => by
    intro cursor values after returned
    cases returned
    exact ⟨[], rfl, [], (List.append_nil _).symm, rfl, rfl⟩
  | n + 1, found => by
    intro cursor values after returned
    simp only [Reader.times] at returned
    split at returned
    · rename_i value middle read
      obtain ⟨first, split, rfl⟩ := each _ _ _ read
      obtain ⟨second, split', own, rfl, size, rfl⟩ := times each n (value :: found) _ _ _ returned
      refine ⟨write value ++ own.flatMap write, ?_, value :: own, ?_, ?_, ?_⟩
      · rw [split, split', List.append_assoc]
      · rw [List.reverse_cons, List.append_assoc]
        rfl
      · rw [List.length_cons, size]
      · rw [List.flatMap_cons]
    · cases returned

theorem table {item : Reader α} (each : Spells item fun value bytes => bytes = write value) :
    Spells (Reader.table item) fun values bytes =>
      bytes = Bytes.count values.length ++ values.flatMap write :=
  u2.bind fun n first number cursor values after returned => by
    obtain ⟨bytes, split, own, rfl, size, rfl⟩ := times each n.toNat [] _ _ _ returned
    refine ⟨_, split, ?_⟩
    beta_reduce
    rw [number, size, Bytes.count, UInt16.ofNat_toNat]

end Spells

/-! ## The constant pool -/

/-- Entries that are stored in one way only. -/
def Entry.plain : Entry → Bool
  | .unusable | .utf8 _ => false
  | _ => true

/-- An entry as it may have been stored. -/
inductive Entry.StoredAs : Entry → Bytes → Prop
  | text {text : String} {raw : Bytes} (short : raw.length < 0x10000)
      (decoded : Text.ModifiedUtf8.decode raw = .ok text) :
      StoredAs (.utf8 text) (1 :: (Bytes.count raw.length ++ raw))
  | other {entry : Entry} {bytes : Bytes} (plain : entry.plain = true)
      (written : entry.write = .ok bytes) : StoredAs entry bytes

namespace Entry

theorem read_spells : Spells Entry.read StoredAs := by
  refine Spells.u1.bind fun tag first lead => ?_
  -- Behind the tag of an entry that is no text come numbers, which are written as they are read.
  have one {tag' : UInt8} (same : tag = tag') {α : Type} {reader : Reader α} {stored : α → Bytes}
      (spells : Spells reader fun value bytes => bytes = stored value) (build : α → Entry)
      (plain : ∀ value, (build value).plain = true)
      (written : ∀ value, (build value).write = .ok (tag' :: stored value)) :
      Spells (do return build (← reader)) fun entry body => StoredAs entry (first ++ body) :=
    spells.map fun value body taken => by
      rw [taken, lead, same]
      exact .other (plain value) (written value)
  have two {tag' : UInt8} (same : tag = tag') {α : Type} {reader : Reader α} {stored : α → Bytes}
      (spells : Spells reader fun value bytes => bytes = stored value) (build : α → UInt16 → Entry)
      (plain : ∀ value index, (build value index).plain = true)
      (written : ∀ value index,
        (build value index).write = .ok (tag' :: (stored value ++ Bytes.u2 index))) :
      Spells (do let value ← reader; return build value (← Reader.u2))
        fun entry body => StoredAs entry (first ++ body) :=
    spells.bind fun value front taken => Spells.u2.map fun index body taken' => by
      rw [taken, taken', lead, same]
      exact .other (plain value index) (written value index)
  refine .ite (fun same => ?_) fun _ => ?_
  · refine Spells.u2.bind fun length second size => (Spells.bytes _).bind fun raw third taken => ?_
    obtain ⟨rfl, enough⟩ := taken
    split
    · rename_i text decoded
      refine .pure ?_
      have stored : StoredAs (.utf8 text) (1 :: (Bytes.count third.length ++ third)) :=
        .text (enough ▸ length.toNat_lt) decoded
      rw [enough, Bytes.count, UInt16.ofNat_toNat] at stored
      rw [lead, same, size, List.append_nil]
      exact stored
    · exact .fail _
  refine .ite (fun same => ?_) fun _ => ?_
  · exact one same .i4 int (by intros; rfl) (by intros; rfl)
  refine .ite (fun same => ?_) fun _ => ?_
  · exact one same .u4 float (by intros; rfl) (by intros; rfl)
  refine .ite (fun same => ?_) fun _ => ?_
  · exact one same .u8 (fun bits => long bits.toInt64) (by intros; rfl) (by intros; rfl)
  refine .ite (fun same => ?_) fun _ => ?_
  · exact one same .u8 double (by intros; rfl) (by intros; rfl)
  refine .ite (fun same => ?_) fun _ => ?_
  · exact one same .u2 «class» (by intros; rfl) (by intros; rfl)
  refine .ite (fun same => ?_) fun _ => ?_
  · exact one same .u2 string (by intros; rfl) (by intros; rfl)
  refine .ite (fun same => ?_) fun _ => ?_
  · exact two same .u2 field (by intros; rfl) (by intros; rfl)
  refine .ite (fun same => ?_) fun _ => ?_
  · exact two same .u2 method (by intros; rfl) (by intros; rfl)
  refine .ite (fun same => ?_) fun _ => ?_
  · exact two same .u2 interfaceMethod (by intros; rfl) (by intros; rfl)
  refine .ite (fun same => ?_) fun _ => ?_
  · exact two same .u2 nameAndType (by intros; rfl) (by intros; rfl)
  refine .ite (fun same => ?_) fun _ => ?_
  · exact two same .u1 methodHandle (by intros; rfl) (by intros; rfl)
  refine .ite (fun same => ?_) fun _ => ?_
  · exact one same .u2 methodType (by intros; rfl) (by intros; rfl)
  refine .ite (fun same => ?_) fun _ => ?_
  · exact two same .u2 dynamic (by intros; rfl) (by intros; rfl)
  refine .ite (fun same => ?_) fun _ => ?_
  · exact two same .u2 invokeDynamic (by intros; rfl) (by intros; rfl)
  refine .ite (fun same => ?_) fun _ => ?_
  · exact one same .u2 module (by intros; rfl) (by intros; rfl)
  refine .ite (fun same => ?_) fun _ => .fail _
  exact one same .u2 package (by intros; rfl) (by intros; rfl)

/-- Entries stored one after the other behind those of `found`. -/
theorem readUpTo_spells (wanted : Nat) : ∀ (fuel : Nat) (found : Entries),
    Spells (readUpTo wanted found fuel) fun entries bytes => ∃ parts pieces,
      entries = found ++ (parts.flatMap spread).toArray ∧ List.Forall₂ StoredAs parts pieces ∧
        bytes = pieces.flatten
  | 0, found => .pure ⟨[], [], by simp, .nil, rfl⟩
  | fuel + 1, found => by
    rw [readUpTo]
    refine .ite (fun _ => .pure ⟨[], [], by simp, .nil, rfl⟩) fun _ => ?_
    refine read_spells.bind fun entry first stored cursor entries after returned => ?_
    obtain ⟨bytes, split, parts, pieces, same, each, rfl⟩ :=
      readUpTo_spells wanted fuel _ _ _ _ returned
    refine ⟨pieces.flatten, split, entry :: parts, first :: pieces, ?_, .cons stored each, rfl⟩
    rw [same, List.flatMap_cons, spread]
    apply Array.toList_inj.1
    split <;> simp

end Entry

/-- A pool as it may have been stored, behind the size it declares. -/
structure Entries.StoredAs (entries : Entries) (declared : UInt16) (parts : List Entry)
    (pieces : List Bytes) : Prop where
  table : entries.toList = .unusable :: parts.flatMap Entry.spread
  each : List.Forall₂ Entry.StoredAs parts pieces

theorem Entries.read_spells : Spells Entries.read fun entries bytes =>
    ∃ declared parts pieces, entries.StoredAs declared parts pieces ∧
      bytes = Bytes.u2 declared ++ pieces.flatten :=
  Spells.u2.bind fun declared first size cursor entries after returned => by
    obtain ⟨bytes, split, parts, pieces, rfl, each, rfl⟩ :=
      Entry.readUpTo_spells _ _ _ _ _ _ returned
    exact ⟨_, split, declared, parts, pieces, ⟨by simp, each⟩, by rw [size]⟩

/-! ## Stored texts -/

/-- The bytes behind the tag of an entry that is no text. -/
def Entry.width (tag : UInt8) : Nat :=
  if tag = 5 ∨ tag = 6 then 8
  else if tag = 7 ∨ tag = 8 ∨ tag = 16 ∨ tag = 19 ∨ tag = 20 then 2
  else if tag = 15 then 3
  else 4

/-- The texts among the stored entries that take up so many indexes. -/
def Entries.texts : Nat → Bytes → List Bytes
  | 0, _ | _, [] => []
  | slots + 1, tag :: rest =>
    if tag = 1 then
      match rest with
      | high :: low :: rest =>
        let length := high.toNat * 256 + low.toNat
        rest.take length :: texts slots (rest.drop length)
      | _ => []
    else if tag = 5 ∨ tag = 6 then
      match slots with
      | 0 => []
      | slots + 1 => texts slots (rest.drop (Entry.width tag))
    else texts slots (rest.drop (Entry.width tag))

theorem Entries.texts_text (slots : Nat) (high low : UInt8) (rest : Bytes) :
    texts (slots + 1) (1 :: high :: low :: rest) =
      rest.take (high.toNat * 256 + low.toNat) ::
        texts slots (rest.drop (high.toNat * 256 + low.toNat)) := by
  rw [texts.eq_def]
  rfl

theorem Entries.texts_wide {tag : UInt8} (noText : tag ≠ 1) (wide : tag = 5 ∨ tag = 6) (slots : Nat)
    (rest : Bytes) :
    texts (slots + 2) (tag :: rest) = texts slots (rest.drop (Entry.width tag)) := by
  rw [texts.eq_def]
  simp only [if_neg noText, if_pos wide]

theorem Entries.texts_narrow {tag : UInt8} (noText : tag ≠ 1) (narrow : ¬ (tag = 5 ∨ tag = 6))
    (slots : Nat) (rest : Bytes) :
    texts (slots + 1) (tag :: rest) = texts slots (rest.drop (Entry.width tag)) := by
  rw [texts.eq_def]
  simp only [if_neg noText, if_neg narrow]

namespace Entry

/-- The text in a stored entry, if it is one. -/
def storedText? : Bytes → Option Bytes
  | 1 :: _ :: _ :: raw => some raw
  | _ => none

/-- A stored entry that is no text has as many bytes as its tag says. -/
theorem tag_of_plain {entry : Entry} {bytes : Bytes} (plain : entry.plain = true)
    (written : entry.write = .ok bytes) : ∃ tag body, bytes = tag :: body ∧ tag ≠ 1 ∧
      body.length = width tag ∧ (entry.slots = 2 ↔ tag = 5 ∨ tag = 6) := by
  cases entry with
  | unusable | utf8 => cases plain
  | _ =>
    cases written
    exact ⟨_, _, rfl, by decide, rfl, by simp [slots]⟩

theorem toNat_u2 (n : UInt16) : (n >>> 8).toUInt8.toNat * 256 + n.toUInt8.toNat = n.toNat := by
  have small := n.toNat_lt
  have high : (n >>> 8).toUInt8.toNat = n.toNat / 256 := by
    simp only [UInt16.toNat_toUInt8, UInt16.toNat_shiftRight]
    rw [Nat.shiftRight_eq_div_pow]
    exact Nat.mod_eq_of_lt (Nat.div_lt_of_lt_mul (k := 2 ^ 8) small)
  rw [high, UInt16.toNat_toUInt8]
  omega

theorem toNat_count {n : Nat} (small : n < 0x10000) :
    ∃ high low, Bytes.count n = [high, low] ∧ high.toNat * 256 + low.toNat = n :=
  ⟨_, _, rfl, (toNat_u2 _).trans (UInt16.toNat_ofNat_of_lt' small)⟩

theorem storedText?_of_plain {entry : Entry} {bytes : Bytes} (plain : entry.plain = true)
    (written : entry.write = .ok bytes) : storedText? bytes = none := by
  obtain ⟨tag, body, rfl, noText, _⟩ := tag_of_plain plain written
  unfold storedText?
  split
  · rename_i same
    cases same
    exact absurd rfl noText
  · rfl

theorem texts_stored {parts : List Entry} {pieces : List Bytes}
    (each : List.Forall₂ StoredAs parts pieces) (rest : Bytes) :
    Entries.texts (parts.flatMap spread).length (pieces.flatten ++ rest) =
      pieces.filterMap storedText? := by
  induction each with
  | nil => cases rest <;> rfl
  | @cons entry piece parts pieces stored _ ih =>
    rw [List.flatMap_cons, List.length_append, length_spread, List.flatten_cons, List.append_assoc]
    cases stored with
    | @text text raw short decoded =>
      obtain ⟨high, low, number, same⟩ := toNat_count short
      have one : (utf8 text).slots = 1 := rfl
      rw [one, Nat.add_comm, number]
      simp only [List.cons_append, List.nil_append]
      rw [Entries.texts_text, same, List.take_left, List.drop_left, ih]
      rfl
    | other plain written =>
      have none_ := storedText?_of_plain plain written
      obtain ⟨tag, body, rfl, noText, size, wide⟩ := tag_of_plain plain written
      rw [List.cons_append, List.filterMap_cons_none none_, ← ih, Nat.add_comm]
      by_cases twice : tag = 5 ∨ tag = 6
      · rw [wide.2 twice, Entries.texts_wide noText twice, ← size, List.drop_left]
      · have once : entry.slots = 1 := by
          have other : entry.slots ≠ 2 := fun same => twice (wide.1 same)
          cases entry <;> first | rfl | exact absurd rfl other
        rw [once, Entries.texts_narrow noText twice, ← size, List.drop_left]

/-- A stored entry is what is written unless it is a text that is not canonical. -/
theorem StoredAs.write_eq {entry : Entry} {piece : Bytes} (stored : StoredAs entry piece)
    (canonical : ∀ text, storedText? piece = some text →
      Text.ModifiedUtf8.canonical text = true) : write entry = .ok piece := by
  cases stored with
  | @text text raw short decoded =>
    have same : Text.ModifiedUtf8.encode text = raw :=
      (Text.ModifiedUtf8.encode_eq_iff_canonical decoded).2 (canonical raw rfl)
    rw [write, same, if_neg (by omega)]
  | other _ written => exact written

theorem storedAs_of_write {entry : Entry} (usable : entry ≠ .unusable) {piece : Bytes}
    (written : write entry = .ok piece) : StoredAs entry piece ∧
      ∀ text, storedText? piece = some text → Text.ModifiedUtf8.canonical text = true := by
  have other (plain : entry.plain = true) : StoredAs entry piece ∧
      ∀ text, storedText? piece = some text → Text.ModifiedUtf8.canonical text = true := by
    refine ⟨.other plain written, fun text same => ?_⟩
    rw [storedText?_of_plain plain written] at same
    cases same
  cases entry with
  | unusable => exact absurd rfl usable
  | utf8 text =>
    rw [write] at written
    split at written
    · cases written
    · cases written
      refine ⟨.text (by omega) (Text.ModifiedUtf8.decode_encode_eq text), fun raw same => ?_⟩
      cases same
      exact Text.ModifiedUtf8.canonical_encode text
  | _ => exact other rfl

/-- What is written for entries, their second slots included, if each is written on its own. -/
theorem write_spread {parts : List Entry} {pieces : List Bytes}
    (each : List.Forall₂ (fun entry bytes => write entry = .ok bytes) parts pieces) :
    ∃ all, (parts.flatMap spread).mapM write = .ok all ∧ all.flatten = pieces.flatten := by
  induction each with
  | nil => exact ⟨[], rfl, rfl⟩
  | @cons entry piece parts pieces own _ ih =>
    obtain ⟨all, written, same⟩ := ih
    rw [List.flatMap_cons, spread]
    split
    · refine ⟨piece :: [] :: all, ?_, by simp [same]⟩
      exact Outcome.mapM_eq_ok.2 (.cons own (.cons rfl (Outcome.mapM_eq_ok.1 written)))
    · refine ⟨piece :: all, ?_, by simp [same]⟩
      exact Outcome.mapM_eq_ok.2 (.cons own (Outcome.mapM_eq_ok.1 written))

end Entry

namespace Entries

variable {entries : Entries} {declared : UInt16} {parts : List Entry} {pieces : List Bytes}

theorem StoredAs.size (stored : entries.StoredAs declared parts pieces) :
    entries.size = (parts.flatMap Entry.spread).length + 1 := by
  rw [← Array.length_toList, stored.table, List.length_cons]

/-- A pool is written as it was stored if it is as large as declared and its texts are canonical. -/
theorem StoredAs.write_eq (stored : entries.StoredAs declared parts pieces)
    (counted : declared.toNat = entries.size)
    (canonical : ∀ text ∈ pieces.filterMap Entry.storedText?,
      Text.ModifiedUtf8.canonical text = true) :
    entries.write = .ok (Bytes.u2 declared ++ pieces.flatten) := by
  have own : List.Forall₂ (fun entry bytes => Entry.write entry = .ok bytes) parts pieces := by
    have each := stored.each
    clear stored
    induction each with
    | nil => exact .nil
    | cons one _ ih =>
      simp only [List.mem_filterMap] at canonical ih
      refine .cons (one.write_eq fun text same => canonical text ⟨_, List.mem_cons_self, same⟩)
        (ih fun text ⟨piece, among, same⟩ => ?_)
      exact canonical text ⟨piece, List.mem_cons_of_mem _ among, same⟩
  obtain ⟨all, written, same⟩ := Entry.write_spread own
  have room : ¬ 0xFFFF < entries.size := by
    have := declared.toNat_lt
    omega
  have number : Bytes.count entries.size = Bytes.u2 declared := by
    rw [← counted, Bytes.count, UInt16.ofNat_toNat]
  unfold write
  rw [if_neg room, stored.table, List.drop_one, List.tail_cons]
  refine Outcome.bind_eq_ok.2 ⟨all, written, ?_⟩
  rw [number, same]
  rfl

/-- What is written declares its size and has canonical texts only. -/
theorem storedAs_of_write (slotted : entries.Slotted) {bytes : Bytes}
    (written : entries.write = .ok bytes) : ∃ declared parts pieces,
      entries.StoredAs declared parts pieces ∧ bytes = Bytes.u2 declared ++ pieces.flatten ∧
        declared.toNat = entries.size ∧ ∀ text ∈ pieces.filterMap Entry.storedText?,
          Text.ModifiedUtf8.canonical text = true := by
  obtain ⟨parts, usable, table⟩ := slotted
  unfold write at written
  split at written
  · cases written
  · rename_i room
    obtain ⟨all, each, same⟩ := Outcome.bind_eq_ok.1 written
    cases same
    rw [table, List.drop_one, List.tail_cons] at each
    obtain ⟨own, each, same⟩ := Entry.written_spread each
    have stored : List.Forall₂ (fun entry piece => Entry.StoredAs entry piece ∧
        ∀ text, Entry.storedText? piece = some text → Text.ModifiedUtf8.canonical text = true)
        parts own :=
      ((List.forall₂_and_left _ _).2 ⟨usable, each⟩).imp fun _ _ both =>
        Entry.storedAs_of_write both.1 both.2
    refine ⟨UInt16.ofNat entries.size, parts, own, ⟨table, stored.imp fun _ _ => And.left⟩,
      by rw [same]; rfl, by simp only [UInt16.toNat_ofNat']; omega, ?_⟩
    intro text among
    obtain ⟨piece, known, same⟩ := List.mem_filterMap.1 among
    obtain ⟨_, _, _, canonical⟩ := Outcome.exists_of_forall₂ stored piece known
    exact canonical text same

end Entries

/-! ## Attributes, members and classes -/

theorem Attribute.read_spells (entries : Entries) :
    Spells (read entries) fun given bytes => bytes = given.write := by
  refine Spells.u2.bind fun nameIndex first index => Spells.u4.bind fun length second size => ?_
  refine (Spells.lift _).bind fun name nothing known => ?_
  refine (Spells.bytes _).map fun payload bytes taken => ?_
  obtain ⟨rfl, enough⟩ := taken
  rw [write, index, size, known.2, enough, UInt32.ofNat_toNat, List.nil_append, List.append_assoc]

theorem Attribute.readTable_spells (entries : Entries) :
    Spells (readTable entries) fun attributes bytes => bytes = writeTable attributes :=
  Spells.table (read_spells entries)

theorem Member.read_spells (entries : Entries) :
    Spells (read entries) fun member bytes => bytes = member.write := by
  refine Spells.u2.bind fun access first flags => Spells.u2.bind fun name second named => ?_
  refine Spells.u2.bind fun descriptor third described => ?_
  refine (Attribute.readTable_spells entries).map fun attributes bytes table => ?_
  rw [write, flags, named, described, table]
  simp only [List.append_assoc]

namespace ClassFile

/-- All that is written of a class behind its pool. -/
def writeRest (file : ClassFile) : Bytes :=
  Bytes.u2 file.access ++ Bytes.u2 file.thisClass ++ Bytes.u2 file.superClass
    ++ Bytes.count file.interfaces.length ++ file.interfaces.flatMap Bytes.u2
    ++ Bytes.count file.fields.length ++ file.fields.flatMap Member.write
    ++ Bytes.count file.methods.length ++ file.methods.flatMap Member.write
    ++ Attribute.writeTable file.attributes

theorem write_eq_ok {file : ClassFile} {bytes : Bytes} :
    file.write file.entries (fun _ => none) = .ok bytes ↔
      ∃ pool, file.entries.write = .ok pool ∧
        bytes = Bytes.u4 magic ++ Bytes.u2 file.minor ++ Bytes.u2 file.major
          ++ (pool ++ file.writeRest) := by
  unfold write
  rw [Outcome.bind_eq_ok]
  refine exists_congr fun pool => and_congr_right fun _ => ?_
  rw [methodsWith_none]
  constructor
  · intro same
    cases same
    simp only [writeRest, List.append_assoc]
  · rintro rfl
    simp only [writeRest, List.append_assoc]
    rfl

theorem reader_spells : Spells reader fun file bytes => ∃ declared parts pieces,
    file.entries.StoredAs declared parts pieces ∧
      bytes = Bytes.u4 magic ++ Bytes.u2 file.minor ++ Bytes.u2 file.major
        ++ (Bytes.u2 declared ++ pieces.flatten ++ file.writeRest) := by
  refine Spells.u4.bind fun found first same => ?_
  have refused {next : Unit → Reader ClassFile} {formed : ClassFile → Bytes → Prop} :
      Spells (Reader.fail (.invalidMagic found) >>= next) formed :=
    @Spells.bind _ _ _ _ (fun _ _ => False) _ (Spells.fail _) fun _ _ none => none.elim
  refine .ite (fun _ => refused) fun known => ?_
  refine Spells.u2.bind fun minor second below => Spells.u2.bind fun major third above => ?_
  refine Entries.read_spells.bind fun entries fourth ⟨declared, parts, pieces, stored, pool⟩ => ?_
  refine Spells.u2.bind fun access fifth flags => Spells.u2.bind fun thisClass sixth own => ?_
  refine Spells.u2.bind fun superClass seventh parent => ?_
  refine (Spells.table Spells.u2).bind fun interfaces eighth listed => ?_
  refine (Spells.table (Member.read_spells entries)).bind fun fields ninth fielded => ?_
  refine (Spells.table (Member.read_spells entries)).bind fun methods tenth methodical => ?_
  refine (Attribute.readTable_spells entries).map fun attributes last attributed => ?_
  refine ⟨declared, parts, pieces, stored, ?_⟩
  have magical : found = magic := not_not.1 known
  simp only [writeRest, same, magical, below, above, pool, flags, own, parent, listed, fielded,
    methodical, attributed, List.append_assoc]

/-- The size that the pool in the bytes of a class declares. -/
def declaredSlots (bytes : Bytes) : Nat :=
  match bytes.drop 8 with
  | high :: low :: _ => high.toNat * 256 + low.toNat
  | _ => 0

/-- The texts of the pool in the bytes of a class, as they are stored. -/
def storedTexts (bytes : Bytes) : List Bytes :=
  Entries.texts (declaredSlots bytes - 1) (bytes.drop 10)

theorem declaredSlots_eq (minor major declared : UInt16) (rest : Bytes) :
    declaredSlots (Bytes.u4 magic ++ Bytes.u2 minor ++ Bytes.u2 major
      ++ (Bytes.u2 declared ++ rest)) = declared.toNat :=
  Entry.toNat_u2 declared

theorem storedTexts_eq {entries : Entries} {declared : UInt16} {parts : List Entry}
    {pieces : List Bytes} (stored : entries.StoredAs declared parts pieces)
    (counted : declared.toNat = entries.size) (minor major : UInt16) (rest : Bytes) :
    storedTexts (Bytes.u4 magic ++ Bytes.u2 minor ++ Bytes.u2 major
      ++ (Bytes.u2 declared ++ (pieces.flatten ++ rest))) =
        pieces.filterMap Entry.storedText? := by
  rw [storedTexts, declaredSlots_eq, counted, stored.size, Nat.add_sub_cancel]
  exact Entry.texts_stored stored.each rest

/-- **Bytes that were read are written again as they were** exactly if nothing follows the class in
them, its pool is as large as declared, and all texts in it are canonical. -/
theorem write_eq_iff {bytes : Bytes} {file : ClassFile} (accepted : read bytes = .ok file) :
    file.write (ConstantPool.ofEntries file.entries).entries (fun _ => none) = .ok bytes ↔
      (∃ offset, reader (Cursor.start bytes) = .ok (file, ⟨offset, []⟩)) ∧
        declaredSlots bytes = file.entries.size ∧
        ∀ text ∈ storedTexts bytes, Text.ModifiedUtf8.canonical text = true := by
  have fits := fits_of_read accepted
  rw [fits.slotted.entries_ofEntries]
  constructor
  · intro written
    have whole := reads_write fits written []
    rw [List.append_nil] at whole
    obtain ⟨pool, stored, rfl⟩ := write_eq_ok.1 written
    obtain ⟨declared, parts, pieces, form, rfl, counted, canonical⟩ :=
      Entries.storedAs_of_write fits.slotted stored
    rw [List.append_assoc (Bytes.u2 declared)] at whole ⊢
    exact ⟨⟨_, whole⟩, (declaredSlots_eq _ _ _ _).trans counted,
      storedTexts_eq form counted _ _ _ ▸ canonical⟩
  · rintro ⟨⟨offset, whole⟩, counted, canonical⟩
    obtain ⟨taken, split, declared, parts, pieces, form, same⟩ := reader_spells _ _ _ whole
    replace split : bytes = taken := split.trans (List.append_nil taken)
    subst split
    rw [List.append_assoc (Bytes.u2 declared)] at same
    rw [same, declaredSlots_eq] at counted
    rw [same, storedTexts_eq form counted] at canonical
    refine write_eq_ok.2 ⟨_, form.write_eq counted canonical, ?_⟩
    rw [same, List.append_assoc (Bytes.u2 declared)]

/-- A class with a long in its pool and a text that is the unit zero, which takes two bytes. -/
def Sample.zeroText : Bytes :=
  [0xCA, 0xFE, 0xBA, 0xBE, 0, 0, 0, 52,
    0, 5, 1, 0, 4, 67, 111, 100, 101, 5, 0, 0, 0, 0, 0, 0, 0, 9, 1, 0, 2, 0xC0, 0x80,
    0, 0x21, 0, 0, 0, 0, 0, 0, 0, 0, 0, 0, 0, 1, 0, 4, 0, 0, 0, 1, 7]

def Sample.zeroTextClass : ClassFile :=
  ⟨0, 52, #[.unusable, .utf8 "Code", .long 9, .unusable, .utf8 "\x00"], 0x21, 0, 0, [], [], [],
    [⟨4, "\x00", [7]⟩]⟩

theorem write_eq_iff_zeroText :
    read Sample.zeroText = .ok Sample.zeroTextClass ∧
      Sample.zeroTextClass.write (ConstantPool.ofEntries Sample.zeroTextClass.entries).entries
        (fun _ => none) = .ok Sample.zeroText := by
  have accepted : read Sample.zeroText = .ok Sample.zeroTextClass := by decide +kernel
  refine ⟨accepted, (write_eq_iff accepted).2 ⟨⟨52, by decide +kernel⟩, by decide +kernel, ?_⟩⟩
  decide +kernel

end ClassFile

end ClassWeave
