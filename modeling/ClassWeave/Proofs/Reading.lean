/-
# ClassWeave.Proofs.Reading -- what a reader takes off the front of a sequence

`Reads reader origin bytes value` says that `reader`, standing at offset `origin` in
front of `bytes`, takes exactly these bytes and returns `value`, whatever follows.  The
rules put such statements together the way readers are put together, so that a writer
and its reader are compared part by part.  Most readers do not look at the offset; a
switch does, for its padding.

`Yields reader good` goes the other way: every value that `reader` returns is `good`,
whatever it was read from.
-/
import ClassWeave.Bytes
import ClassWeave.Proofs.Outcome
import Mathlib.Algebra.Group.Nat.Defs
import Mathlib.Data.List.Forall2

set_option autoImplicit false

namespace ClassWeave

/-! ## Numbers -/

namespace Bytes

/-- A number of `2 * k` bits is its upper half moved up, or its lower half. -/
theorem halves_or (k n : Nat) (small : n < 2 ^ (2 * k)) :
    (n >>> k % 2 ^ k) <<< k % 2 ^ (2 * k) ||| n % 2 ^ k = n := by
  have square : 2 ^ (2 * k) = 2 ^ k * 2 ^ k := by rw [Nat.two_mul, Nat.pow_add]
  have upper : n / 2 ^ k < 2 ^ k := Nat.div_lt_of_lt_mul (square ▸ small)
  have whole : n / 2 ^ k * 2 ^ k < 2 ^ (2 * k) :=
    Nat.lt_of_le_of_lt (Nat.div_mul_le_self n _) small
  rw [Nat.shiftRight_eq_div_pow, Nat.mod_eq_of_lt upper, Nat.shiftLeft_eq,
    Nat.mod_eq_of_lt whole, ← Nat.shiftLeft_eq,
    ← Nat.shiftLeft_add_eq_or_of_lt (Nat.mod_lt _ (Nat.two_pow_pos k)), Nat.shiftLeft_eq,
    Nat.div_add_mod']

theorem join_u2 (n : UInt16) :
    (n >>> 8).toUInt8.toUInt16 <<< 8 ||| n.toUInt8.toUInt16 = n :=
  UInt16.toNat_inj.1 (by simpa using halves_or 8 n.toNat n.toNat_lt)

theorem join_u4 (n : UInt32) :
    (n >>> 16).toUInt16.toUInt32 <<< 16 ||| n.toUInt16.toUInt32 = n :=
  UInt32.toNat_inj.1 (by simpa using halves_or 16 n.toNat n.toNat_lt)

theorem join_u8 (n : UInt64) :
    (n >>> 32).toUInt32.toUInt64 <<< 32 ||| n.toUInt32.toUInt64 = n :=
  UInt64.toNat_inj.1 (by simpa using halves_or 32 n.toNat n.toNat_lt)

@[simp] theorem length_u2 (n : UInt16) : (u2 n).length = 2 := rfl

@[simp] theorem length_u4 (n : UInt32) : (u4 n).length = 4 := rfl

@[simp] theorem length_u8 (n : UInt64) : (u8 n).length = 8 := rfl

@[simp] theorem length_count (n : Nat) : (count n).length = 2 := rfl

@[simp] theorem length_i2 (n : Int16) : (i2 n).length = 2 := rfl

@[simp] theorem length_i4 (n : Int32) : (i4 n).length = 4 := rfl

end Bytes

/-! ## Reading what was written -/

/-- The reader takes `bytes` at `origin` and returns `value`. -/
def Reads {α : Type} (reader : Reader α) (origin : Nat) (bytes : Bytes) (value : α) : Prop :=
  ∀ rest, reader ⟨origin, bytes ++ rest⟩ = .ok (value, ⟨origin + bytes.length, rest⟩)

namespace Reads

variable {α β : Type} {reader : Reader α} {next : α → Reader β} {origin : Nat}
  {first second : Bytes} {value : α} {result : β}

theorem pure (value : α) (origin : Nat) : Reads (pure value) origin [] value := fun _ => rfl

theorem bind (takes : Reads reader origin first value)
    (goesOn : Reads (next value) (origin + first.length) second result) :
    Reads (reader >>= next) origin (first ++ second) result := by
  intro rest
  show (reader _ >>= fun (found, cursor) => next found cursor) = _
  rw [List.append_assoc, takes (second ++ rest)]
  show next value _ = _
  rw [goesOn rest, List.length_append, Nat.add_assoc]

/-- What is done with the value takes no more bytes. -/
theorem bindNil (takes : Reads reader origin first value)
    (goesOn : Reads (next value) (origin + first.length) [] result) :
    Reads (reader >>= next) origin first result := by
  have taken := takes.bind goesOn
  rwa [List.append_nil] at taken

theorem map (takes : Reads reader origin first value) (f : α → β) :
    Reads (do return f (← reader)) origin first (f value) :=
  takes.bindNil (Reads.pure (f value) _)

theorem lift {found : Except ReadError α} (known : found = .ok value) (origin : Nat) :
    Reads (Reader.lift found) origin [] value := by
  intro rest
  subst known
  rfl

/-- A step that finds a value without reading. -/
theorem bindLift {found : Except ReadError α} (known : found = .ok value)
    (goesOn : Reads (next value) origin second result) :
    Reads (Reader.lift found >>= next) origin second result :=
  (lift known origin).bind goesOn

theorem offset {second : Bytes} {next : Nat → Reader β}
    (goesOn : Reads (next origin) origin second result) :
    Reads (Reader.offset >>= next) origin second result := fun rest => goesOn rest

theorem u1 (b : UInt8) (origin : Nat) : Reads Reader.u1 origin [b] b := fun _ => rfl

theorem u2 (n : UInt16) (origin : Nat) : Reads Reader.u2 origin (Bytes.u2 n) n := by
  intro rest
  show Except.ok ((n >>> 8).toUInt8.toUInt16 <<< 8 ||| n.toUInt8.toUInt16, _) = _
  rw [Bytes.join_u2]
  rfl

theorem u4 (n : UInt32) (origin : Nat) : Reads Reader.u4 origin (Bytes.u4 n) n := by
  have low := (u2 n.toUInt16 (origin + 2)).map fun low =>
    (n >>> 16).toUInt16.toUInt32 <<< 16 ||| low.toUInt32
  rw [Bytes.join_u4] at low
  exact (u2 (n >>> 16).toUInt16 origin).bind low

theorem u8 (n : UInt64) (origin : Nat) : Reads Reader.u8 origin (Bytes.u8 n) n := by
  have low := (u4 n.toUInt32 (origin + 4)).map fun low =>
    (n >>> 32).toUInt32.toUInt64 <<< 32 ||| low.toUInt64
  rw [Bytes.join_u8] at low
  exact (u4 (n >>> 32).toUInt32 origin).bind low

theorem i1 (n : Int8) (origin : Nat) : Reads Reader.i1 origin [n.toUInt8] n :=
  (u1 n.toUInt8 origin).map UInt8.toInt8

theorem i2 (n : Int16) (origin : Nat) : Reads Reader.i2 origin (Bytes.i2 n) n :=
  (u2 n.toUInt16 origin).map UInt16.toInt16

theorem i4 (n : Int32) (origin : Nat) : Reads Reader.i4 origin (Bytes.i4 n) n :=
  (u4 n.toUInt32 origin).map UInt32.toInt32

theorem bytes {n : Nat} {payload : Bytes} (size : payload.length = n) (origin : Nat) :
    Reads (Reader.bytes n) origin payload payload := by
  intro rest
  subst size
  simp [Reader.bytes, Bytes.splitTaking?_eq]

/-- One value after the other, each read from its own bytes wherever they stand. -/
theorem timesEach {item : Reader α} {values : List α} {parts : List Bytes}
    (each : List.Forall₂ (fun value bytes => ∀ origin, Reads item origin bytes value) values parts) :
    ∀ (found : List α) (origin : Nat),
    Reads (Reader.times item values.length found) origin parts.flatten
      (found.reverse ++ values) := by
  induction each with
  | nil =>
    intro found origin
    rw [List.append_nil]
    exact Reads.pure found.reverse origin
  | @cons value bytes values parts one _ ih =>
    intro found origin rest
    have taken := one origin (parts.flatten ++ rest)
    have others := ih (value :: found) (origin + bytes.length) rest
    rw [List.flatten_cons, List.append_assoc, List.length_cons, Reader.times]
    simp only [taken]
    rw [others, List.length_append, Nat.add_assoc, List.reverse_cons, List.append_assoc]
    rfl

theorem times {item : Reader α} {write : α → Bytes} (values found : List α) (origin : Nat)
    (each : ∀ value ∈ values, ∀ origin, Reads item origin (write value) value) :
    Reads (Reader.times item values.length found) origin (values.flatMap write)
      (found.reverse ++ values) := by
  rw [List.flatMap_def]
  exact timesEach (List.forall₂_map_right_iff.2 (List.forall₂_same.2 each)) found origin

theorem tableEach {item : Reader α} {values : List α} {parts : List Bytes} (origin : Nat)
    (few : values.length < 0x10000)
    (each : List.Forall₂ (fun value bytes => ∀ origin, Reads item origin bytes value) values parts) :
    Reads (Reader.table item) origin (Bytes.count values.length ++ parts.flatten) values := by
  have number : (UInt16.ofNat values.length).toNat = values.length := by
    simpa using few
  have taken := timesEach each [] (origin + 2)
  rw [← number] at taken
  exact (u2 _ origin).bind taken

theorem table {item : Reader α} {write : α → Bytes} (values : List α) (origin : Nat)
    (few : values.length < 0x10000)
    (each : ∀ value ∈ values, ∀ origin, Reads item origin (write value) value) :
    Reads (Reader.table item) origin (Bytes.count values.length ++ values.flatMap write)
      values := by
  rw [List.flatMap_def]
  exact tableEach origin few (List.forall₂_map_right_iff.2 (List.forall₂_same.2 each))

/-- What comes behind the value does not matter to a run. -/
theorem run (takes : Reads reader 0 first value) (rest : Bytes) :
    reader.run (first ++ rest) = .ok value := by
  rw [Reader.run, Cursor.start, takes rest]

end Reads

/-! ## What is read -/

/-- One reader after another returns where both do, the second from where the first has come to. -/
theorem Reader.bind_eq_ok {α β : Type} {reader : Reader α} {next : α → Reader β}
    {cursor after : Cursor} {result : β} : (reader >>= next) cursor = .ok (result, after) ↔
      ∃ value middle, reader cursor = .ok (value, middle) ∧
        next value middle = .ok (result, after) := by
  show (reader cursor >>= fun (value, middle) => next value middle) = _ ↔ _
  rw [Outcome.bind_eq_ok, Prod.exists]

/-- Every value the reader returns is good. -/
def Yields {α : Type} (reader : Reader α) (good : α → Prop) : Prop :=
  ∀ cursor value cursor', reader cursor = .ok (value, cursor') → good value

namespace Yields

variable {α β : Type} {reader : Reader α} {next : α → Reader β} {good : α → Prop}
  {fine : β → Prop}

theorem pure {value : α} (holds : good value) : Yields (pure value) good := by
  intro cursor found cursor' returned
  cases returned
  exact holds

theorem bind (yields : Yields reader good) (goesOn : ∀ value, good value → Yields (next value) fine) :
    Yields (reader >>= next) fine := by
  intro cursor result cursor' returned
  obtain ⟨value, middle, read, returned⟩ := Reader.bind_eq_ok.1 returned
  exact goesOn value (yields _ _ _ read) _ _ _ returned

theorem fail (cause : ReadError) : Yields (Reader.fail cause) good := by
  intro cursor value cursor' returned
  cases returned

theorem lift (found : Except ReadError α) :
    Yields (Reader.lift found) fun value => found = .ok value := by
  intro cursor value cursor' returned
  unfold Reader.lift at returned
  split at returned <;> cases returned
  rfl

theorem any (reader : Reader α) : Yields reader fun _ => True := fun _ _ _ _ => trivial

theorem mono {better : α → Prop} (yields : Yields reader better)
    (weaker : ∀ value, better value → good value) : Yields reader good :=
  fun _ _ _ returned => weaker _ (yields _ _ _ returned)

theorem map {f : α → β} (each : ∀ value, fine (f value)) :
    Yields (do return f (← reader)) fine :=
  (any reader).bind fun value _ => .pure (each value)

theorem ite {condition : Prop} [Decidable condition] {first second : Reader α}
    (left : Yields first good) (right : Yields second good) :
    Yields (if condition then first else second) good := by
  split
  · exact left
  · exact right

theorem bytes (n : Nat) : Yields (Reader.bytes n) fun payload => payload.length = n := by
  intro cursor payload cursor' returned
  rw [Reader.bytes, Bytes.splitTaking?_eq] at returned
  by_cases enough : n ≤ cursor.rest.length
  · rw [if_pos enough] at returned
    cases returned
    simpa using Nat.min_eq_left enough
  · rw [if_neg enough] at returned
    cases returned

theorem times {item : Reader α} (each : Yields item good) : ∀ (n : Nat) (found : List α),
    (∀ value ∈ found, good value) → Yields (Reader.times item n found) fun values =>
      values.length = found.length + n ∧ ∀ value ∈ values, good value
  | 0, found, already => by
    intro cursor values cursor' returned
    cases returned
    simpa using already
  | n + 1, found, already => by
    intro cursor values cursor' returned
    simp only [Reader.times] at returned
    split at returned
    · rename_i value middle read
      have held : ∀ other ∈ value :: found, good other :=
        List.forall_mem_cons.2 ⟨each _ _ _ read, already⟩
      obtain ⟨size, all⟩ := times each n (value :: found) held _ _ _ returned
      exact ⟨by rw [size, List.length_cons]; omega, all⟩
    · cases returned

theorem table {item : Reader α} (each : Yields item good) :
    Yields (Reader.table item) fun values =>
      values.length < 0x10000 ∧ ∀ value ∈ values, good value :=
  (Yields.any Reader.u2).bind fun n _ => (times each n.toNat [] (by simp)).mono fun _ held =>
    ⟨by have := n.toNat_lt; simp only [held.1, List.length_nil]; omega, held.2⟩

theorem run (yields : Yields reader good) {input : Bytes} {value : α}
    (returned : reader.run input = .ok value) : good value := by
  unfold Reader.run at returned
  split at returned <;> cases returned
  exact yields _ _ _ ‹_›

end Yields

end ClassWeave
