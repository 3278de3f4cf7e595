/-
# ClassWeave.Proofs.Decoding -- what a code array is decoded to

Decoding goes forward: a reader takes some bytes off the front and moves by as many
(`Takes`).  So the offsets of decoded instructions rise and lie inside the code, and so
do the targets of jumps, which the reader checks; and every instruction is one that its
bytes can tell, since its form was chosen by its opcode (`decode_spec`).
-/
import ClassWeave.Proofs.InstructionRoundTrip

set_option autoImplicit false

namespace ClassWeave

/-- The reader moves over the bytes it takes, and what it returns is good. -/
def Takes {α : Type} (reader : Reader α) (good : α → Prop) : Prop :=
  ∀ cursor value cursor', reader cursor = .ok (value, cursor') →
    good value ∧ ∃ taken, cursor.rest = taken ++ cursor'.rest ∧
      cursor'.offset = cursor.offset + taken.length

namespace Takes

variable {α β : Type} {reader : Reader α} {next : α → Reader β} {good : α → Prop}
  {fine : β → Prop}

theorem pure {value : α} (holds : good value) : Takes (pure value) good := by
  intro cursor found cursor' returned
  cases returned
  exact ⟨holds, [], rfl, rfl⟩

theorem bind (takes : Takes reader good) (goesOn : ∀ value, good value → Takes (next value) fine) :
    Takes (reader >>= next) fine := by
  intro cursor result cursor' returned
  obtain ⟨value, middle, read, returned⟩ := Reader.bind_eq_ok.1 returned
  obtain ⟨holds, first, before, moved⟩ := takes _ _ _ read
  obtain ⟨holds', second, after, moved'⟩ := goesOn value holds _ _ _ returned
  refine ⟨holds', first ++ second, ?_, ?_⟩
  · rw [before, after, List.append_assoc]
  · rw [moved', moved, List.length_append, Nat.add_assoc]

theorem fail (cause : ReadError) : Takes (Reader.fail cause) good := by
  intro cursor value cursor' returned
  cases returned

theorem lift (found : Except ReadError α) :
    Takes (Reader.lift found) fun value => found = .ok value := by
  intro cursor value cursor' returned
  unfold Reader.lift at returned
  split at returned <;> cases returned
  exact ⟨rfl, [], rfl, rfl⟩

theorem mono {better : α → Prop} (takes : Takes reader better)
    (weaker : ∀ value, better value → good value) : Takes reader good := by
  intro cursor value cursor' returned
  obtain ⟨holds, moved⟩ := takes _ _ _ returned
  exact ⟨weaker value holds, moved⟩

theorem map {f : α → β} (takes : Takes reader good) (each : ∀ value, good value → fine (f value)) :
    Takes (do return f (← reader)) fine :=
  takes.bind fun value holds => .pure (each value holds)

theorem ite {condition : Prop} [Decidable condition] {first second : Reader α}
    (left : condition → Takes first good) (right : ¬ condition → Takes second good) :
    Takes (if condition then first else second) good := by
  split
  · exact left ‹_›
  · exact right ‹_›

theorem offset : Takes Reader.offset fun _ => True := by
  intro cursor value cursor' returned
  cases returned
  exact ⟨trivial, [], rfl, rfl⟩

theorem u1 : Takes Reader.u1 fun _ => True := by
  intro cursor value cursor' returned
  unfold Reader.u1 at returned
  split at returned
  · rename_i b rest front
    cases returned
    exact ⟨trivial, [value], front, rfl⟩
  · cases returned

theorem u2 : Takes Reader.u2 fun _ => True := by
  intro cursor value cursor' returned
  unfold Reader.u2 at returned
  split at returned
  · rename_i a b rest front
    cases returned
    exact ⟨trivial, [a, b], front, rfl⟩
  · cases returned

theorem i1 : Takes Reader.i1 fun _ => True := u1.map fun _ _ => trivial

theorem i2 : Takes Reader.i2 fun _ => True := u2.map fun _ _ => trivial

theorem u4 : Takes Reader.u4 fun _ => True := u2.bind fun _ _ => u2.map fun _ _ => trivial

theorem u8 : Takes Reader.u8 fun _ => True := u4.bind fun _ _ => u4.map fun _ _ => trivial

theorem i4 : Takes Reader.i4 fun _ => True := u4.map fun _ _ => trivial

theorem bytes (n : Nat) : Takes (Reader.bytes n) fun _ => True := by
  intro cursor payload cursor' returned
  rw [Reader.bytes, Bytes.splitTaking?_eq] at returned
  by_cases enough : n ≤ cursor.rest.length
  · rw [if_pos enough] at returned
    cases returned
    refine ⟨trivial, cursor.rest.take n, (List.take_append_drop n cursor.rest).symm, ?_⟩
    rw [List.length_take, Nat.min_eq_left enough]
  · rw [if_neg enough] at returned
    cases returned

theorem times {item : Reader α} (each : Takes item good) : ∀ (n : Nat) (found : List α),
    (∀ value ∈ found, good value) → Takes (Reader.times item n found) fun values =>
      values.length = found.length + n ∧ ∀ value ∈ values, good value
  | 0, found, already => by
    intro cursor values cursor' returned
    cases returned
    exact ⟨by simpa using already, [], rfl, rfl⟩
  | n + 1, found, already => by
    intro cursor values cursor' returned
    simp only [Reader.times] at returned
    split at returned
    · rename_i value middle read
      obtain ⟨holds, first, before, moved⟩ := each _ _ _ read
      have held : ∀ other ∈ value :: found, good other := List.forall_mem_cons.2 ⟨holds, already⟩
      obtain ⟨⟨size, all⟩, second, after, moved'⟩ := times each n (value :: found) held _ _ _ returned
      refine ⟨⟨?_, all⟩, first ++ second, ?_, ?_⟩
      · rw [size, List.length_cons]
        omega
      · rw [before, after, List.append_assoc]
      · rw [moved', moved, List.length_append, Nat.add_assoc]
    · cases returned

end Takes

/-! ## One instruction -/

/-- The instruction can be told by its bytes, and its targets lie inside the code. -/
structure Instruction.Decoded (entries : Entries) (length : Nat) (insn : Instruction) : Prop where
  wellFormed : insn.WellFormed entries
  inside : ∀ target ∈ insn.targets, target.id < length

namespace Decode

open Opcode

variable {entries : Entries} {length origin : Nat}

theorem target_lt {distance : Int32} {label : Label}
    (found : target length origin distance = .ok label) : label.id < length := by
  unfold target at found
  simp only at found
  split at found
  · rename_i within
    cases found
    simp only
    omega
  · cases found

theorem near_takes : Takes (near length origin) fun label => label.id < length :=
  Takes.i2.bind fun _ _ => (Takes.lift _).mono fun _ found => target_lt found

theorem far_takes : Takes (far length origin) fun label => label.id < length :=
  Takes.i4.bind fun _ _ => (Takes.lift _).mono fun _ found => target_lt found

theorem tableSwitch_takes : Takes (tableSwitch length origin) (Instruction.Decoded entries length) := by
  refine (Takes.bytes _).bind fun _ _ => far_takes.bind fun default inside => ?_
  refine Takes.i4.bind fun low _ => Takes.i4.bind fun high _ => ?_
  refine (Takes.times far_takes _ [] (by simp)).bind fun targets listed => .pure ⟨?_, ?_⟩
  · exact listed.1.trans (Nat.zero_add _)
  · intro target among
    rcases List.mem_append.1 among with early | last
    · exact listed.2 target early
    · obtain rfl := List.mem_singleton.1 last
      exact inside

theorem lookupSwitch_takes :
    Takes (lookupSwitch length origin) (Instruction.Decoded entries length) := by
  refine (Takes.bytes _).bind fun _ _ => far_takes.bind fun default inside => ?_
  refine Takes.i4.bind fun count _ => ?_
  have pair : Takes (switchPair length origin) fun pair => pair.2.id < length :=
    Takes.i4.bind fun key _ => far_takes.map fun target within => within
  refine (Takes.times pair _ [] (by simp)).bind fun pairs listed => .pure ⟨trivial, ?_⟩
  intro target among
  rcases List.mem_append.1 among with early | last
  · obtain ⟨pair, known, rfl⟩ := List.mem_map.1 early
    exact listed.2 pair known
  · obtain rfl := List.mem_singleton.1 last
    exact inside

/-- An instruction without targets. -/
theorem decoded_of_lone {insn : Instruction} (lone : insn.targets = [])
    (wellFormed : insn.WellFormed entries) : insn.Decoded entries length :=
  ⟨wellFormed, by simp [lone]⟩

theorem widened_takes : Takes widened (Instruction.Decoded entries length) := by
  refine Takes.offset.bind fun origin _ => Takes.u1.bind fun op _ => ?_
  refine .ite (fun names => ?_) fun _ => .ite (fun _ => ?_) fun _ => .fail _
  · exact Takes.u2.map fun slot _ => decoded_of_lone rfl names
  · exact Takes.u2.bind fun slot _ => Takes.i2.map fun increment _ => decoded_of_lone rfl trivial

/-- A constant that was found is one that can be named. -/
theorem wellFormed_of_loadable {place : UInt16} {constant : Loadable}
    (found : entries.loadable place = .ok constant) : constant.WellFormed entries := by
  cases constant with
  | methodHandle index =>
    have same : index = place := by
      unfold Entries.loadable at found
      split at found
      case h_5 | h_6 | h_7 | h_9 =>
        obtain ⟨_, _, wrong⟩ := Outcome.bind_eq_ok.1 found
        cases wrong
      case h_8 =>
        cases found
        rfl
      all_goals cases found
    exact same ▸ found
  | dynamic index descriptor =>
    have same : index = place := by
      unfold Entries.loadable at found
      split at found
      case h_5 | h_6 | h_7 =>
        obtain ⟨_, _, wrong⟩ := Outcome.bind_eq_ok.1 found
        cases wrong
      case h_9 =>
        obtain ⟨_, _, same⟩ := Outcome.bind_eq_ok.1 found
        cases same
        rfl
      all_goals cases found
    exact same ▸ found
  | _ => trivial

theorem operands_takes (op : Opcode) :
    Takes (operands entries length origin op) (Instruction.Decoded entries length) := by
  have ldc {form : Opcode} {place : UInt16} : Takes (do
      return .ldc form (← Reader.lift (entries.loadable place)))
      (Instruction.Decoded entries length) :=
    (Takes.lift _).map fun constant found => decoded_of_lone rfl (wellFormed_of_loadable found)
  unfold operands
  -- One branch for each of the operand forms, in the order in which they are tried.
  refine .ite (fun alone => .pure (decoded_of_lone rfl alone)) fun _ => ?_
  refine .ite (fun is => Takes.i1.map fun n _ =>
    decoded_of_lone rfl (.inl ⟨is, Operand.int8_fits n⟩)) fun _ => ?_
  refine .ite (fun is => Takes.i2.map fun n _ =>
    decoded_of_lone rfl (.inr (.inl ⟨is, Operand.int16_fits n⟩))) fun _ => ?_
  refine .ite (fun is => Takes.u1.map fun n _ =>
    decoded_of_lone rfl (.inr (.inr ⟨is, Operand.byte_fits n⟩))) fun _ => ?_
  refine .ite (fun _ => Takes.u1.bind fun _ _ => ldc) fun _ => ?_
  refine .ite (fun _ => Takes.u2.bind fun _ _ => ldc) fun _ => ?_
  refine .ite (fun names => Takes.u1.map fun _ _ => decoded_of_lone rfl names) fun _ => ?_
  refine .ite (fun _ => Takes.u1.bind fun _ _ => Takes.i1.map fun _ _ =>
    decoded_of_lone rfl trivial) fun _ => ?_
  refine .ite (fun jumps => near_takes.map fun target inside => ⟨.inl ?_, ?_⟩) fun _ => ?_
  · simpa [jumpsNear, or_assoc] using jumps
  · simpa [Instruction.targets] using inside
  refine .ite (fun jumps => far_takes.map fun target inside => ⟨.inr jumps, ?_⟩) fun _ => ?_
  · simpa [Instruction.targets] using inside
  refine .ite (fun _ => tableSwitch_takes) fun _ => ?_
  refine .ite (fun _ => lookupSwitch_takes) fun _ => ?_
  refine .ite (fun field => Takes.u2.bind fun _ _ => (Takes.lift _).map fun _ _ =>
    decoded_of_lone rfl field) fun _ => ?_
  refine .ite (fun method => Takes.u2.bind fun _ _ => (Takes.lift _).bind fun _ _ =>
    .pure (decoded_of_lone rfl (.inl method))) fun _ => ?_
  refine .ite (fun method => Takes.u2.bind fun _ _ => (Takes.lift _).bind fun _ _ =>
    (Takes.bytes 2).bind fun _ _ => .pure (decoded_of_lone rfl (.inr ⟨method, rfl⟩))) fun _ => ?_
  refine .ite (fun _ => Takes.u2.bind fun _ _ => (Takes.lift _).bind fun _ _ =>
    (Takes.bytes 2).bind fun _ _ => .pure (decoded_of_lone rfl trivial)) fun _ => ?_
  refine .ite (fun type => Takes.u2.bind fun _ _ => (Takes.lift _).map fun _ _ =>
    decoded_of_lone rfl type) fun _ => ?_
  refine .ite (fun _ => widened_takes) fun _ => ?_
  exact .ite (fun _ => Takes.u2.bind fun _ _ => (Takes.lift _).bind fun _ _ =>
    Takes.u1.map fun _ _ => decoded_of_lone rfl trivial) fun _ => .fail _

/-- An instruction has the offset it was read at, and the reader moves on. -/
theorem instruction_moves {cursor cursor' : Cursor} {item : Nat × Instruction}
    (read : instruction entries length cursor = .ok (item, cursor')) :
    item.1 = cursor.offset ∧ item.2.Decoded entries length ∧
      cursor.offset < cursor'.offset ∧
      cursor'.offset + cursor'.rest.length = cursor.offset + cursor.rest.length := by
  obtain ⟨origin, start, here, read⟩ := Reader.bind_eq_ok.1 read
  cases here
  obtain ⟨op, middle, first, read⟩ := Reader.bind_eq_ok.1 read
  obtain ⟨insn, after, rest, same⟩ := Reader.bind_eq_ok.1 read
  cases same
  obtain ⟨_, own, before, moved⟩ := Takes.u1 _ _ _ first
  obtain ⟨decoded, taken, later, moved'⟩ := operands_takes op _ _ _ rest
  have opened : middle.offset = cursor.offset + 1 := by
    unfold Reader.u1 at first
    split at first <;> cases first
    rfl
  refine ⟨rfl, decoded, by omega, ?_⟩
  rw [before, later]
  simp only [List.length_append]
  omega

/-- The instructions of `items` in order of their offsets, all of them from `start` on. -/
structure Rising (entries : Entries) (length start : Nat) (items : List (Nat × Instruction)) :
    Prop where
  rising : items.Pairwise fun a b => a.1 < b.1
  from_ : ∀ item ∈ items, start ≤ item.1
  inside : ∀ item ∈ items, item.1 < length
  decoded : ∀ item ∈ items, item.2.Decoded entries length

theorem upToEnd_rising : ∀ (fuel : Nat) (found items : List (Nat × Instruction)) (cursor : Cursor),
    cursor.offset + cursor.rest.length = length →
    upToEnd entries length fuel found cursor = .ok items →
    ∃ more, items = found.reverse ++ more ∧ Rising entries length cursor.offset more
  | 0, found, items, cursor, _, read => by
    cases read
    exact ⟨[], (List.append_nil _).symm, .nil, by simp, by simp, by simp⟩
  | fuel + 1, found, items, cursor, whole, read => by
    rw [upToEnd] at read
    split at read
    · cases read
      exact ⟨[], (List.append_nil _).symm, .nil, by simp, by simp, by simp⟩
    · split at read
      · rename_i item middle one
        obtain ⟨here, decoded, moves, same⟩ := instruction_moves one
        obtain ⟨more, listed, rest⟩ :=
          upToEnd_rising fuel (item :: found) items middle (same.trans whole) read
        refine ⟨item :: more, ?_, ?_, ?_, ?_, ?_⟩
        · rw [listed, List.reverse_cons, List.append_assoc]
          rfl
        · refine List.pairwise_cons.2 ⟨fun other among => ?_, rest.rising⟩
          have later := rest.from_ other among
          omega
        · refine List.forall_mem_cons.2 ⟨Nat.le_of_eq here.symm, fun other among => ?_⟩
          have later := rest.from_ other among
          omega
        · refine List.forall_mem_cons.2 ⟨by omega, rest.inside⟩
        · exact List.forall_mem_cons.2 ⟨decoded, rest.decoded⟩
      · cases read

end Decode

/-- Decoded code has its instructions in order, inside the code, as its bytes can tell them. -/
theorem decode_spec {entries : Entries} {code : Bytes} {items : List (Nat × Instruction)}
    (read : decode entries code = .ok items) : Decode.Rising entries code.length 0 items := by
  obtain ⟨more, listed, rising⟩ :=
    Decode.upToEnd_rising (code.length + 1) [] items (Cursor.start code) (Nat.zero_add _) read
  rw [listed]
  exact rising

end ClassWeave
