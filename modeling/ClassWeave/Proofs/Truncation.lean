/-
# ClassWeave.Proofs.Truncation -- class files that are cut short

`Demands reader origin bytes value` says what bytes a value stands and falls with:
`reader` returns it for `bytes` whatever follows them, and reports the end of the input
if the sequence ends before all of them have come.  A reader is `Exacting` if whatever
it returns is returned for bytes it demands.  Numbers and payloads are, and whatever is
put together from exacting readers is: a cut falls on one of the parts, and the parts
before it are read as they were.

So every class file that is accepted has a length (`ClassFile.read_cut`): what comes
behind does not matter, and nothing shorter is taken for a class file.
-/
import ClassWeave.Proofs.ClassFileRoundTrip

set_option autoImplicit false

namespace ClassWeave

/-! ## Bytes that a value stands and falls with -/

/-- The reader takes `bytes` at `origin` and returns `value`, and the input ends too soon for it
where it ends inside them. -/
structure Demands {α : Type} (reader : Reader α) (origin : Nat) (bytes : Bytes) (value : α) :
    Prop where
  reads : Reads reader origin bytes value
  cut : ∀ n < bytes.length, reader ⟨origin, bytes.take n⟩ = .error .unexpectedEnd

/-- What the reader returns, it returns for bytes it demands. -/
def Exacting {α : Type} (reader : Reader α) : Prop :=
  ∀ cursor value after, reader cursor = .ok (value, after) →
    ∃ bytes, cursor.rest = bytes ++ after.rest ∧ Demands reader cursor.offset bytes value

namespace Demands

variable {α β : Type} {reader : Reader α} {next : α → Reader β} {origin : Nat}
  {first second : Bytes} {value : α} {result : β}

/-- Behind the bytes it demands the reader stands at the bytes that follow. -/
theorem after_eq (demands : Demands reader origin first value) {rest : Bytes} {after : Cursor}
    (returned : reader ⟨origin, first ++ rest⟩ = .ok (value, after)) :
    after = ⟨origin + first.length, rest⟩ := by
  rw [demands.reads rest] at returned
  cases returned
  rfl

/-- A cut falls on the first bytes, or it leaves them whole and falls on the second. -/
theorem bind (demands : Demands reader origin first value)
    (goesOn : Demands (next value) (origin + first.length) second result) :
    Demands (reader >>= next) origin (first ++ second) result where
  reads := demands.reads.bind goesOn.reads
  cut n few := by
    show (reader _ >>= fun (found, cursor) => next found cursor) = _
    rw [List.take_append]
    rcases Nat.lt_or_ge n first.length with inside | beyond
    · have nothing : second.take (n - first.length) = [] := by
        rw [Nat.sub_eq_zero_of_le (Nat.le_of_lt inside), List.take_zero]
      rw [nothing, List.append_nil, demands.cut n inside]
      rfl
    · rw [List.take_of_length_le beyond, demands.reads]
      rw [List.length_append] at few
      exact goesOn.cut (n - first.length) (by omega)

end Demands

namespace Exacting

variable {α β : Type} {reader : Reader α} {next : α → Reader β}

theorem pure (value : α) : Exacting (pure value) := by
  intro cursor found after returned
  cases returned
  exact ⟨[], rfl, .pure value _, nofun⟩

theorem fail (cause : ReadError) : Exacting (Reader.fail (α := α) cause) := by
  intro cursor value after returned
  cases returned

/-- Nothing goes on behind a failure. -/
theorem failed (cause : ReadError) (next : β → Reader α) :
    Exacting (Reader.fail cause >>= next) := by
  intro cursor value after returned
  cases returned

/-- What is found without reading does not depend on the bytes. -/
theorem lift (found : Except ReadError α) : Exacting (Reader.lift found) := by
  cases found with
  | ok value => exact .pure value
  | error cause => exact .fail cause

theorem ite {condition : Prop} [Decidable condition] {first second : Reader α}
    (left : Exacting first) (right : Exacting second) :
    Exacting (if condition then first else second) := by
  split
  · exact left
  · exact right

theorem bind (exacting : Exacting reader) (goesOn : ∀ value, Exacting (next value)) :
    Exacting (reader >>= next) := by
  rintro ⟨origin, input⟩ result after returned
  obtain ⟨value, middle, read, finished⟩ := Reader.bind_eq_ok.1 returned
  obtain ⟨first, rfl, demands⟩ := exacting _ _ _ read
  obtain ⟨second, split, demands'⟩ := goesOn value _ _ _ finished
  rw [demands.after_eq read] at demands'
  exact ⟨first ++ second, by rw [split, List.append_assoc], demands.bind demands'⟩

theorem map (exacting : Exacting reader) (f : α → β) : Exacting (do return f (← reader)) :=
  exacting.bind fun value => .pure (f value)

theorem u1 : Exacting Reader.u1 := by
  rintro ⟨origin, _ | ⟨b, rest⟩⟩ value after returned
  · cases returned
  · cases returned
    refine ⟨[b], rfl, .u1 b origin, fun n few => ?_⟩
    obtain rfl : n = 0 := Nat.lt_one_iff.1 few
    rfl

theorem u2 : Exacting Reader.u2 := by
  rintro ⟨origin, _ | ⟨high, _ | ⟨low, rest⟩⟩⟩ value after returned
  · cases returned
  · cases returned
  · cases returned
    refine ⟨[high, low], rfl, fun _ => rfl, fun n few => ?_⟩
    obtain rfl | rfl : n = 0 ∨ n = 1 := by
      simp only [List.length_cons, List.length_nil] at few
      omega
    · rfl
    · rfl

theorem u4 : Exacting Reader.u4 := u2.bind fun _ => u2.map _

theorem u8 : Exacting Reader.u8 := u4.bind fun _ => u4.map _

theorem i4 : Exacting Reader.i4 := u4.map _

theorem bytes (n : Nat) : Exacting (Reader.bytes n) := by
  intro cursor payload after returned
  have size := Yields.bytes n cursor payload after returned
  rw [Reader.bytes, Bytes.splitTaking?_eq] at returned
  by_cases enough : n ≤ cursor.rest.length
  · rw [if_pos enough] at returned
    cases returned
    refine ⟨_, (List.take_append_drop n cursor.rest).symm, .bytes size _, fun k few => ?_⟩
    have whole : (cursor.rest.take n).length = n := by
      rw [List.length_take, Nat.min_eq_left enough]
    have short : ¬ n ≤ ((cursor.rest.take n).take k).length := by
      replace few : k < (cursor.rest.take n).length := few
      rw [List.length_take]
      omega
    rw [Reader.bytes, Bytes.splitTaking?_eq]
    simp only [if_neg short]
  · rw [if_neg enough] at returned
    cases returned

theorem times {item : Reader α} (each : Exacting item) : ∀ (n : Nat) (found : List α),
    Exacting (Reader.times item n found)
  | 0, found => .pure found.reverse
  | n + 1, found => by
    have oneByOne : Reader.times item (n + 1) found =
        (item >>= fun value => Reader.times item n (value :: found)) := by
      funext cursor
      show Reader.times item (n + 1) found cursor =
        (item cursor >>= fun (value, cursor) => Reader.times item n (value :: found) cursor)
      simp only [Reader.times]
      cases item cursor <;> rfl
    rw [oneByOne]
    exact each.bind fun value => times each n (value :: found)

theorem table {item : Reader α} (each : Exacting item) : Exacting (Reader.table item) :=
  u2.bind fun n => times each n.toNat []

/-- A run of an exacting reader is decided by the first bytes, and all of them. -/
theorem run (exacting : Exacting reader) {input : Bytes} {value : α}
    (returned : reader.run input = .ok value) :
    ∃ n ≤ input.length,
      (∀ other : Bytes, other.take n = input.take n → reader.run other = .ok value) ∧
      ∀ m < n, reader.run (input.take m) = .error .unexpectedEnd := by
  unfold Reader.run at returned
  split at returned
  · rename_i found after read
    cases returned
    obtain ⟨bytes, split, demands⟩ := exacting _ _ _ read
    replace split : input = bytes ++ after.rest := split
    refine ⟨bytes.length, ?_, fun other same => ?_, fun m few => ?_⟩
    · rw [split, List.length_append]
      exact Nat.le_add_right _ _
    · rw [split, List.take_left] at same
      rw [← List.take_append_drop bytes.length other, same]
      exact demands.reads.run _
    · have within : input.take m = bytes.take m := by
        rw [split, List.take_append_of_le_length (Nat.le_of_lt few)]
      have short : reader (Cursor.start (bytes.take m)) = .error .unexpectedEnd := demands.cut m few
      rw [within, Reader.run, short]
  · cases returned

end Exacting

/-! ## The parts of a class file -/

theorem Entry.read_exacting : Exacting Entry.read := by
  refine Exacting.u1.bind fun tag => ?_
  repeat' refine Exacting.ite ?_ ?_
  · -- The bytes of a text are looked at when all of them have come.
    refine Exacting.u2.bind fun length => (Exacting.bytes _).bind fun raw => ?_
    split
    · exact .pure _
    · exact .fail _
  all_goals first
    | exact .fail _
    | exact Exacting.i4.map _
    | exact Exacting.u4.map _
    | exact Exacting.u8.map _
    | exact Exacting.u2.map _
    | exact Exacting.u2.bind fun _ => Exacting.u2.map _
    | exact Exacting.u1.bind fun _ => Exacting.u2.map _

theorem Entry.readUpTo_exacting (wanted : Nat) : ∀ (fuel : Nat) (found : Entries),
    Exacting (readUpTo wanted found fuel)
  | 0, found => .pure found
  | fuel + 1, found => by
    rw [readUpTo]
    exact .ite (.pure found) (read_exacting.bind fun _ => readUpTo_exacting wanted fuel _)

theorem Entries.read_exacting : Exacting Entries.read :=
  Exacting.u2.bind fun _ => Entry.readUpTo_exacting _ _ _

theorem Attribute.read_exacting (entries : Entries) : Exacting (read entries) := by
  refine Exacting.u2.bind fun nameIndex => Exacting.u4.bind fun length => ?_
  exact (Exacting.lift _).bind fun name => (Exacting.bytes _).map _

theorem Attribute.readTable_exacting (entries : Entries) : Exacting (readTable entries) :=
  .table (read_exacting entries)

theorem Member.read_exacting (entries : Entries) : Exacting (read entries) := by
  refine Exacting.u2.bind fun access => Exacting.u2.bind fun name => ?_
  exact Exacting.u2.bind fun descriptor => (Attribute.readTable_exacting entries).map _

namespace ClassFile

theorem reader_exacting : Exacting reader := by
  refine Exacting.u4.bind fun found => ?_
  refine .ite (.failed _ _) ?_
  refine Exacting.u2.bind fun minor => Exacting.u2.bind fun major => ?_
  refine Entries.read_exacting.bind fun entries => ?_
  refine Exacting.u2.bind fun access => Exacting.u2.bind fun thisClass => ?_
  refine Exacting.u2.bind fun superClass => (Exacting.table .u2).bind fun interfaces => ?_
  refine (Exacting.table (Member.read_exacting entries)).bind fun fields => ?_
  refine (Exacting.table (Member.read_exacting entries)).bind fun methods => ?_
  exact (Attribute.readTable_exacting entries).map _

/-- **A class file has a length.**  Bytes that are accepted are accepted as the same class file
whatever comes behind it; with fewer bytes the input ends too soon, wherever it is cut off. -/
theorem read_cut {bytes : Bytes} {file : ClassFile} (returned : read bytes = .ok file) :
    ∃ n ≤ bytes.length,
      (∀ other : Bytes, other.take n = bytes.take n → read other = .ok file) ∧
      (∀ m < n, read (bytes.take m) = .error .unexpectedEnd) ∧
      ∀ m other, read (bytes.take m) = .ok other ↔ n ≤ m ∧ other = file := by
  obtain ⟨n, within, same, short⟩ := reader_exacting.run returned
  refine ⟨n, within, same, short, fun m other => ⟨fun accepted => ?_, ?_⟩⟩
  · rcases Nat.lt_or_ge m n with few | enough
    · cases (short m few).symm.trans accepted
    · have whole : (bytes.take m).take n = bytes.take n := by
        rw [List.take_take, Nat.min_eq_left enough]
      cases (same _ whole).symm.trans accepted
      exact ⟨enough, rfl⟩
  · rintro ⟨enough, rfl⟩
    exact same _ (by rw [List.take_take, Nat.min_eq_left enough])

/-- A class with a text, a wide constant and an attribute, and two bytes behind it. -/
def Sample.trailed : Bytes :=
  [0xCA, 0xFE, 0xBA, 0xBE, 0, 0, 0, 52, 0, 4, 5, 0, 0, 0, 0, 0, 0, 0, 9, 1, 0, 2, 0xC3, 0xA9,
    0, 0x21, 0, 0, 0, 0, 0, 0, 0, 0, 0, 0, 0, 1, 0, 3, 0, 0, 0, 2, 7, 8, 0xCA, 0xFE]

def Sample.trailedClass : ClassFile :=
  ⟨0, 52, #[.unusable, .long 9, .unusable, .utf8 "é"], 0x21, 0, 0, [], [], [], [⟨3, "é", [7, 8]⟩]⟩

theorem read_cut_trailed :
    read Sample.trailed = .ok Sample.trailedClass ∧
      ∃ n ≤ Sample.trailed.length,
        (∀ other : Bytes, other.take n = Sample.trailed.take n →
          read other = .ok Sample.trailedClass) ∧
        (∀ m < n, read (Sample.trailed.take m) = .error .unexpectedEnd) ∧
        ∀ m other, read (Sample.trailed.take m) = .ok other ↔
          n ≤ m ∧ other = Sample.trailedClass := by
  have accepted : read Sample.trailed = .ok Sample.trailedClass := by decide +kernel
  exact ⟨accepted, read_cut accepted⟩

end ClassFile

end ClassWeave
