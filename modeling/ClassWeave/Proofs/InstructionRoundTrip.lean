/-
# ClassWeave.Proofs.InstructionRoundTrip -- one instruction, written and read back

The writer of an instruction leaves its targets open and interns its operands; the
reader finds the targets closed and the operands in whatever the pool has become by
then.  `Instruction.SpelledBy` is what holds between the two: pieces that spell an
instruction in a table of constants spell it in every longer table, and whatever offsets
the labels get, the closed pieces are read back as the instruction with these offsets
for its targets.

Which bytes an instruction takes depends on where it stands (the padding of a switch),
on its operands (`wide`) and on the place of its constant (`ldc`), and each of these
choices is made once by the writer and once by the reader.
-/
import ClassWeave.Code.Assemble
import ClassWeave.Code.Decode
import ClassWeave.Proofs.PoolGrowth
import ClassWeave.Proofs.Reading

set_option autoImplicit false

namespace ClassWeave

/-! ## Constants found again -/

/-- The constant that a load interns.  Handles and dynamic constants are where they are. -/
def Loadable.constant? : Loadable → Option Constant
  | int value => some (.int value)
  | float bits => some (.float bits)
  | long value => some (.long value)
  | double bits => some (.double bits)
  | string text => some (.string text)
  | «class» name => some (.class name)
  | methodType descriptor => some (.methodType descriptor)
  | methodHandle _ | dynamic _ _ => none

/-- A handle or a dynamic constant names an entry that is one. -/
def Loadable.WellFormed (entries : Entries) : Loadable → Prop
  | methodHandle index => entries.loadable index = .ok (.methodHandle index)
  | dynamic index descriptor => entries.loadable index = .ok (.dynamic index descriptor)
  | _ => True

instance (entries : Entries) : DecidablePred (Loadable.WellFormed entries)
  | .methodHandle index =>
    inferInstanceAs (Decidable (entries.loadable index = .ok (.methodHandle index)))
  | .dynamic index descriptor =>
    inferInstanceAs (Decidable (entries.loadable index = .ok (.dynamic index descriptor)))
  | .int _ | .float _ | .long _ | .double _ | .string _ | .class _ | .methodType _ =>
    inferInstanceAs (Decidable True)

namespace Entries

variable {entries : Entries} {index : UInt16}

theorem className_of_constant {name : String}
    (stands : entries.constantAt? index.toNat = some (.class name)) :
    entries.className index = .ok name :=
  (className_eq_ok _ _ _).2 ((ConstantPool.holds_class ⟨entries, ∅⟩ _ _).1 stands)

theorem field_of_constant {target : MemberRef}
    (stands : entries.constantAt? index.toNat = some (.field target)) :
    entries.field index = .ok target := by
  obtain ⟨entry, found, stands⟩ := (constantAt?_eq_some _ _ _).1 stands
  cases entry <;> simp_all [constant?, field, member_eq_ok, Option.bind_eq_some_iff]

theorem method_of_constant {target : MemberRef} {isInterface : Bool}
    (stands : entries.constantAt? index.toNat =
      some (if isInterface then .interfaceMethod target else .method target)) :
    entries.method index = .ok (target, isInterface) := by
  obtain ⟨entry, found, stands⟩ := (constantAt?_eq_some _ _ _).1 stands
  have member {owner nameAndType : UInt16} (known : entries.member? owner nameAndType = some target) :
      entries.member owner nameAndType = .ok target := (member_eq_ok _ _ _ _).2 known
  cases isInterface <;> cases entry <;> simp_all [constant?, method, Option.bind_eq_some_iff]

theorem invokeDynamic_of_constant {bootstrap : UInt16} {name descriptor : String}
    (stands : entries.constantAt? index.toNat = some (.invokeDynamic bootstrap name descriptor)) :
    entries.invokeDynamic index = .ok (bootstrap, name, descriptor) := by
  obtain ⟨entry, found, stands⟩ := (constantAt?_eq_some _ _ _).1 stands
  have parts {place : UInt16} (known : entries.nameAndType? place = some (name, descriptor)) :
      entries.nameAndType place = .ok (name, descriptor) := (nameAndType_eq_ok _ _ _).2 known
  cases entry <;> simp_all [constant?, invokeDynamic, Option.bind_eq_some_iff]

theorem loadable_of_constant {constant : Constant} {loaded : Loadable}
    (stands : entries.constantAt? index.toNat = some constant)
    (same : loaded.constant? = some constant) : entries.loadable index = .ok loaded := by
  obtain ⟨entry, found, stands⟩ := (constantAt?_eq_some _ _ _).1 stands
  have text {place : UInt16} {text : String} (known : entries.utf8? place = some text) :
      entries.utf8 place = .ok text := (utf8_eq_ok _ _ _).2 known
  cases loaded <;> cases same <;> cases entry <;>
    simp_all [constant?, loadable, Option.bind_eq_some_iff]

/-- What a constant load names is there for good. -/
theorem Extends.loadable {before after : Entries} (extends_ : before.Extends after)
    {loaded : Loadable} (known : before.loadable index = .ok loaded) :
    after.loadable index = .ok loaded := by
  unfold Entries.loadable at known ⊢
  split at known
  case h_10 => cases known
  all_goals
    rename_i entry
    rw [extends_.getElem? entry]
  case h_5 | h_6 | h_7 =>
    obtain ⟨text, found, same⟩ := Outcome.bind_eq_ok.1 known
    exact Outcome.bind_eq_ok.2 ⟨text, extends_.utf8 found, same⟩
  case h_9 =>
    obtain ⟨parts, found, same⟩ := Outcome.bind_eq_ok.1 known
    have later := extends_.nameAndType? ((nameAndType_eq_ok _ _ _).1 found)
    exact Outcome.bind_eq_ok.2 ⟨parts, (nameAndType_eq_ok _ _ _).2 later, same⟩
  all_goals exact known

end Entries

theorem Loadable.WellFormed.extends_ {before after : Entries} (extends_ : before.Extends after)
    {constant : Loadable} (wellFormed : constant.WellFormed before) :
    constant.WellFormed after := by
  cases constant with
  | methodHandle | dynamic => exact extends_.loadable wellFormed
  | _ => trivial

theorem Interning.loadable_leads {pool : ConstantPool} (sound : pool.Sound) {constant : Loadable}
    (wellFormed : constant.WellFormed pool.entries) :
    Leads (loadable constant) pool fun index after =>
      after.entries.loadable index = .ok constant := by
  have interned {step : Interning UInt16} {stored : Constant} (same : constant.constant? = some stored)
      (leads : Leads step pool fun index after => after.Holds stored index) :
      Leads step pool fun index after => after.entries.loadable index = .ok constant :=
    leads.mono fun _ _ _ holds => Entries.loadable_of_constant holds same
  cases constant with
  | int value => exact interned rfl (int_leads sound value)
  | float bits => exact interned rfl (float_leads sound bits)
  | long value => exact interned rfl (long_leads sound value)
  | double bits => exact interned rfl (double_leads sound bits)
  | string text => exact interned rfl (string_leads sound text)
  | «class» name => exact interned rfl (className_leads sound name)
  | methodType descriptor => exact interned rfl (methodType_leads sound descriptor)
  | methodHandle index =>
    refine (existing_leads index pool).mono ?_
    rintro _ _ _ ⟨rfl, rfl⟩
    exact wellFormed
  | dynamic index descriptor =>
    refine (existing_leads index pool).mono ?_
    rintro _ _ _ ⟨rfl, rfl⟩
    exact wellFormed

/-! ## Operands in fewer bytes -/

namespace Operand

theorem low_of_int32 (n : Int32) : n.toInt8.toUInt8 = n.toUInt32.toUInt8 := by
  apply UInt8.toBitVec_inj.1
  show n.toInt8.toBitVec = n.toUInt32.toUInt8.toBitVec
  rw [Int32.toBitVec_toInt8, UInt32.toBitVec_toUInt8,
    BitVec.signExtend_eq_setWidth_of_le _ (by decide)]
  rfl

theorem low_of_int16 (n : Int16) : n.toInt8.toUInt8 = n.toUInt16.toUInt8 := by
  apply UInt8.toBitVec_inj.1
  show n.toInt8.toBitVec = n.toUInt16.toUInt8.toBitVec
  rw [Int16.toBitVec_toInt8, UInt16.toBitVec_toUInt8,
    BitVec.signExtend_eq_setWidth_of_le _ (by decide)]
  rfl

theorem half_of_int32 (n : Int32) : n.toInt16.toUInt16 = n.toUInt32.toUInt16 := by
  apply UInt16.toBitVec_inj.1
  show n.toInt16.toBitVec = n.toUInt32.toUInt16.toBitVec
  rw [Int32.toBitVec_toInt16, UInt32.toBitVec_toUInt16,
    BitVec.signExtend_eq_setWidth_of_le _ (by decide)]
  rfl

theorem back_from_int8 {n : Int32} (low : -0x80 ≤ n.toInt) (high : n.toInt ≤ 0x7F) :
    n.toInt8.toInt32 = n := by
  apply Int32.toInt_inj.1
  rw [Int8.toInt_toInt32, Int32.toInt_toInt8]
  exact Int.bmod_eq_of_le (by omega) (by omega)

theorem back_from_int16 {n : Int32} (low : -0x8000 ≤ n.toInt) (high : n.toInt ≤ 0x7FFF) :
    n.toInt16.toInt32 = n := by
  apply Int32.toInt_inj.1
  rw [Int16.toInt_toInt32, Int32.toInt_toInt16]
  exact Int.bmod_eq_of_le (by omega) (by omega)

theorem back_from_byte {n : Int32} (low : 0 ≤ n.toInt) (high : n.toInt ≤ 0xFF) :
    n.toUInt32.toUInt8.toUInt32.toInt32 = n := by
  obtain ⟨k, same⟩ := Int.eq_ofNat_of_zero_le low
  have own : n = Int32.ofNat k := by
    apply Int32.toInt_inj.1
    rw [same, Int32.toInt_ofNat_of_lt (by omega)]
  have back : (UInt32.ofNat k).toUInt8.toUInt32 = UInt32.ofNat k := by
    apply UInt32.toNat_inj.1
    simp
    omega
  rw [own]
  show (UInt32.ofNat k).toUInt8.toUInt32.toInt32 = Int32.ofNat k
  rw [back]
  rfl

theorem int8_fits (n : Int8) : -0x80 ≤ n.toInt32.toInt ∧ n.toInt32.toInt ≤ 0x7F := by
  have low := n.le_toInt
  have high := n.toInt_lt
  rw [Int8.toInt_toInt32]
  omega

theorem int16_fits (n : Int16) : -0x8000 ≤ n.toInt32.toInt ∧ n.toInt32.toInt ≤ 0x7FFF := by
  have low := n.le_toInt
  have high := n.toInt_lt
  rw [Int16.toInt_toInt32]
  omega

theorem byte_fits (n : UInt8) :
    0 ≤ n.toUInt32.toInt32.toInt ∧ n.toUInt32.toInt32.toInt ≤ 0xFF := by
  have small := n.toNat_lt
  have same : n.toUInt32.toInt32.toInt = n.toNat := by
    show n.toUInt32.toBitVec.toInt = n.toNat
    have nat : n.toUInt32.toBitVec.toNat = n.toNat := by simp
    rw [BitVec.toInt_eq_toNat_of_lt (by omega), nat]
  omega

theorem slot_back {slot : UInt16} (near : ¬ 0xFF < slot) : slot.toUInt8.toUInt16 = slot := by
  apply UInt16.toNat_inj.1
  rw [UInt16.lt_iff_toNat_lt] at near
  simp at near ⊢
  omega

theorem increment_back {increment : Int16} (low : ¬ increment < -128) (high : ¬ 127 < increment) :
    increment.toInt8.toInt16 = increment := by
  apply Int16.toInt_inj.1
  rw [Int8.toInt_toInt16, Int16.toInt_toInt8]
  rw [Int16.lt_iff_toInt_lt] at low high
  simp at low high
  exact Int.bmod_eq_of_le (by omega) (by omega)

end Operand

/-! ## Opcodes -/

/-- What is true of the opcodes one by one is true of all. -/
theorem Opcode.forall_of_bytes {P : Opcode → Prop} (each : ∀ n < 256, P (UInt8.ofNat n))
    (op : Opcode) : P op := by
  have own := each op.toNat op.toNat_lt
  rwa [UInt8.ofNat_toNat] at own

namespace Decode

open Opcode

/-- Jumps whose distance takes two bytes. -/
def jumpsNear (op : Opcode) : Bool := within op ifeq jsr || op == ifnull || op == ifnonnull

variable (entries : Entries) (length origin : Nat) {op : Opcode}

theorem operands_slot (slot : namesSlot op = true) :
    operands entries length origin op = (do return .var op (← Reader.u1).toUInt16) := by
  have apart : ∀ op : Opcode, namesSlot op = true → standsAlone op = false ∧ op ≠ bipush ∧
      op ≠ sipush ∧ op ≠ newarray ∧ op ≠ ldc ∧ ¬ (op = ldcW ∨ op = ldc2W) :=
    forall_of_bytes (by decide +kernel)
  simp [operands, apart op slot, slot]

theorem operands_near (jump : jumpsNear op = true) :
    operands entries length origin op = (do return .jump op (← near length origin)) := by
  have apart : ∀ op : Opcode, jumpsNear op = true → standsAlone op = false ∧ op ≠ bipush ∧
      op ≠ sipush ∧ op ≠ newarray ∧ op ≠ ldc ∧ ¬ (op = ldcW ∨ op = ldc2W) ∧
      namesSlot op = false ∧ op ≠ iinc ∧ (within op ifeq jsr ∨ op = ifnull ∨ op = ifnonnull) :=
    forall_of_bytes (by decide +kernel)
  simp [operands, apart op jump]

theorem operands_field (field : within op getstatic putfield = true) :
    operands entries length origin op = (do
      let place ← Reader.u2
      return .field op (← Reader.lift (entries.field place))) := by
  have four : ∀ op : Opcode, within op getstatic putfield = true →
      op = getstatic ∨ op = putstatic ∨ op = getfield ∨ op = putfield :=
    forall_of_bytes (by decide +kernel)
  rcases four op field with rfl | rfl | rfl | rfl <;> rfl

theorem operands_method (method : within op invokevirtual invokestatic = true) :
    operands entries length origin op = (do
      let place ← Reader.u2
      let (target, isInterface) ← Reader.lift (entries.method place)
      return .method op target isInterface) := by
  have three : ∀ op : Opcode, within op invokevirtual invokestatic = true →
      op = invokevirtual ∨ op = invokespecial ∨ op = invokestatic :=
    forall_of_bytes (by decide +kernel)
  rcases three op method with rfl | rfl | rfl <;> rfl

/-- An instruction is read from its opcode and then its operands. -/
theorem reads_instruction {entries : Entries} {length origin : Nat} {op : Opcode} {rest : Bytes}
    {insn : Instruction}
    (takes : Reads (operands entries length origin op) (origin + 1) rest insn) :
    Reads (instruction entries length) origin (op :: rest) (origin, insn) :=
  Reads.offset ((Reads.u1 op origin).bind (takes.map fun insn => (origin, insn)))

end Decode

/-! ## Targets -/

namespace AssembledCode

variable {labels : Std.TreeMap Label Nat} {length origin : Nat} {target : Label} {bytes : Bytes}

/-- The label of the offset that a label got. -/
def landing (labels : Std.TreeMap Label Nat) (label : Label) : Label :=
  ((labels[label]?).map Label.mk).getD label

/-- The label is not placed at the end of code of a given length or beyond. -/
def Inside (labels : Std.TreeMap Label Nat) (length : Nat) (label : Label) : Prop :=
  ∀ offset, labels[label]? = some offset → offset < length

/-- The label is placed inside the code. -/
def Lands (labels : Std.TreeMap Label Nat) (length : Nat) (label : Label) : Prop :=
  ∃ offset, labels[label]? = some offset ∧ offset < length

instance (labels : Std.TreeMap Label Nat) (length : Nat) : DecidablePred (Inside labels length) :=
  fun label => decidable_of_iff ((labels[label]?).all (· < length)) (by
    simp [Inside, Option.all_eq_true])

/-- The distance to the label of an offset, in four bytes. -/
def farBytes (origin : Nat) (landed : Label) : Bytes :=
  Bytes.i4 (Int32.ofInt ((landed.id : Int) - origin))

theorem Lands.landing_lt (lands : Lands labels length target) :
    (landing labels target).id < length := by
  obtain ⟨offset, known, within⟩ := lands
  simpa [landing, known] using within

theorem lands_of_place (inside : Inside labels length target) {offset : Nat}
    (found : place labels target = .ok offset) :
    Lands labels length target ∧ (landing labels target).id = offset := by
  unfold place at found
  split at found
  · rename_i known
    cases found
    exact ⟨⟨offset, known, inside offset known⟩, by simp [landing, known]⟩
  · cases found

theorem close_far (inside : Inside labels length target)
    (closed : close labels origin (.far target) = .ok bytes) :
    Lands labels length target ∧ bytes = farBytes origin (landing labels target) := by
  obtain ⟨offset, found, same⟩ := Outcome.bind_eq_ok.1 closed
  obtain ⟨lands, rfl⟩ := lands_of_place inside found
  cases same
  exact ⟨lands, rfl⟩

theorem close_near (inside : Inside labels length target)
    (closed : close labels origin (.near target) = .ok bytes) :
    Lands labels length target ∧
      bytes = Bytes.i2 (Int16.ofInt (((landing labels target).id : Int) - origin)) ∧
      -0x8000 ≤ ((landing labels target).id : Int) - origin ∧
      ((landing labels target).id : Int) - origin ≤ 0x7FFF := by
  obtain ⟨offset, found, chosen⟩ := Outcome.bind_eq_ok.1 closed
  obtain ⟨lands, rfl⟩ := lands_of_place inside found
  simp only at chosen
  split at chosen
  · rename_i fits
    cases chosen
    exact ⟨lands, rfl, fits⟩
  · cases chosen

theorem closeAll_nil_eq_ok : closeAll labels origin [] = .ok bytes ↔ bytes = [] := by
  constructor
  · intro closed
    cases closed
    rfl
  · rintro rfl
    rfl

theorem closeAll_cons_eq_ok {piece : Piece} {pieces : List Piece} :
    closeAll labels origin (piece :: pieces) = .ok bytes ↔
      ∃ first rest, close labels origin piece = .ok first ∧
        closeAll labels origin pieces = .ok rest ∧ bytes = first ++ rest := by
  unfold closeAll
  rw [List.mapM_cons]
  simp only [Outcome.bind_eq_ok]
  constructor
  · rintro ⟨parts, ⟨first, one, parts', others, same⟩, whole⟩
    cases same
    cases whole
    exact ⟨first, parts'.flatten, one, ⟨parts', others, rfl⟩, rfl⟩
  · rintro ⟨first, rest, one, ⟨parts, others, same⟩, rfl⟩
    cases same
    exact ⟨first :: parts, ⟨first, one, parts, others, rfl⟩, rfl⟩

theorem closeAll_bytes (labels : Std.TreeMap Label Nat) (origin : Nat) (given : Bytes) :
    closeAll labels origin [.bytes given] = .ok given := by
  simp [closeAll, close]

theorem closeAll_bytes_cons_eq_ok {given : Bytes} {pieces : List Piece} :
    closeAll labels origin (.bytes given :: pieces) = .ok bytes ↔
      ∃ rest, closeAll labels origin pieces = .ok rest ∧ bytes = given ++ rest := by
  rw [closeAll_cons_eq_ok]
  constructor
  · rintro ⟨first, rest, one, others, same⟩
    cases one
    exact ⟨rest, others, same⟩
  · rintro ⟨rest, others, same⟩
    exact ⟨given, rest, rfl, others, same⟩

theorem closeAll_far_cons (inside : Inside labels length target) {pieces : List Piece}
    (closed : closeAll labels origin (.far target :: pieces) = .ok bytes) :
    Lands labels length target ∧ ∃ rest, closeAll labels origin pieces = .ok rest ∧
      bytes = farBytes origin (landing labels target) ++ rest := by
  obtain ⟨first, rest, one, others, same⟩ := closeAll_cons_eq_ok.1 closed
  obtain ⟨lands, rfl⟩ := close_far inside one
  exact ⟨lands, rest, others, same⟩

/-- The targets of a switch, one after the other. -/
theorem closeAll_targets : ∀ {targets : List Label} {bytes : Bytes},
    (∀ target ∈ targets, Inside labels length target) →
    closeAll labels origin (targets.map .far) = .ok bytes →
    (∀ target ∈ targets, Lands labels length target) ∧
      bytes = (targets.map (landing labels)).flatMap (farBytes origin)
  | [], _, _, closed => ⟨by simp, closeAll_nil_eq_ok.1 closed⟩
  | target :: targets, _, each, closed => by
    obtain ⟨first, rest, others, rfl⟩ := closeAll_far_cons (each target List.mem_cons_self) closed
    obtain ⟨land, same⟩ :=
      closeAll_targets (fun other among => each other (List.mem_cons_of_mem _ among)) others
    refine ⟨List.forall_mem_cons.2 ⟨first, land⟩, ?_⟩
    rw [same, List.map_cons, List.flatMap_cons]

/-- The pairs of a switch, one after the other. -/
theorem closeAll_pairs : ∀ {pairs : List (Int32 × Label)} {bytes : Bytes},
    (∀ pair ∈ pairs, Inside labels length pair.2) →
    closeAll labels origin
      (pairs.flatMap fun (key, target) => [.bytes (Bytes.i4 key), .far target]) = .ok bytes →
    (∀ pair ∈ pairs, Lands labels length pair.2) ∧
      bytes = (pairs.map fun (key, target) => (key, landing labels target)).flatMap
        fun (key, landed) => Bytes.i4 key ++ farBytes origin landed
  | [], _, _, closed => ⟨by simp, closeAll_nil_eq_ok.1 closed⟩
  | (key, target) :: pairs, _, each, closed => by
    obtain ⟨own, open_, rfl⟩ := closeAll_bytes_cons_eq_ok.1 closed
    obtain ⟨first, rest, others, rfl⟩ :=
      closeAll_far_cons (each (key, target) List.mem_cons_self) open_
    obtain ⟨land, same⟩ :=
      closeAll_pairs (fun other among => each other (List.mem_cons_of_mem _ among)) others
    refine ⟨List.forall_mem_cons.2 ⟨first, land⟩, ?_⟩
    rw [same, List.map_cons, List.flatMap_cons, List.append_assoc]

end AssembledCode

namespace Decode

open AssembledCode

variable {length origin : Nat} {landed : Label}

theorem target_eq_ok (within : landed.id < length) {distance : Int32}
    (exactly : distance.toInt = (landed.id : Int) - origin) :
    target length origin distance = .ok landed := by
  have back : (origin : Int) + distance.toInt = landed.id := by omega
  rw [target]
  simp only [back]
  rw [if_pos (by omega)]
  rfl

theorem reads_far (within : landed.id < length) (inside : origin ≤ length)
    (small : length ≤ 0xFFFF) (start : Nat) :
    Reads (far length origin) start (farBytes origin landed) landed := by
  refine (Reads.i4 _ start).bindNil (Reads.lift (target_eq_ok within ?_) _)
  rw [Int32.toInt_ofInt_of_le (by omega) (by omega)]

theorem reads_near (within : landed.id < length) (start : Nat)
    (low : -0x8000 ≤ (landed.id : Int) - origin) (high : (landed.id : Int) - origin ≤ 0x7FFF) :
    Reads (near length origin) start (Bytes.i2 (Int16.ofInt ((landed.id : Int) - origin)))
      landed := by
  refine (Reads.i2 _ start).bindNil (Reads.lift (target_eq_ok within ?_) _)
  rw [Int16.toInt_toInt32, Int16.toInt_ofInt_of_le (by omega) (by omega)]

end Decode

/-! ## Instructions that can be told by their bytes -/

namespace Instruction

open Opcode

/-- The opcode belongs to the form of the instruction, and the operands fit their room.  The opcode
of a constant load is up to the writer. -/
def WellFormed (entries : Entries) : Instruction → Prop
  | simple op => Decode.standsAlone op = true
  | int op operand =>
    op = bipush ∧ -0x80 ≤ operand.toInt ∧ operand.toInt ≤ 0x7F ∨
      op = sipush ∧ -0x8000 ≤ operand.toInt ∧ operand.toInt ≤ 0x7FFF ∨
      op = newarray ∧ 0 ≤ operand.toInt ∧ operand.toInt ≤ 0xFF
  | var op _ => Decode.namesSlot op = true
  | type op _ => op = new ∨ op = anewarray ∨ op = checkcast ∨ op = instanceof
  | field op _ => within op getstatic putfield = true
  | method op _ isInterface =>
    within op invokevirtual invokestatic = true ∨ op = invokeinterface ∧ isInterface = true
  | jump op _ => Decode.jumpsNear op = true ∨ op = gotoW ∨ op = jsrW
  | ldc _ constant => constant.WellFormed entries
  | tableSwitch low high _ targets => targets.length = (high.toInt - low.toInt + 1).toNat
  | invokeDynamic .. | iinc .. | lookupSwitch .. | multiNewArray .. => True

instance (entries : Entries) : DecidablePred (WellFormed entries)
  | simple _ | var _ _ | field _ _ | jump _ _ | tableSwitch _ _ _ _ | int _ _ | type _ _
  | method _ _ _ | invokeDynamic _ _ _ | iinc _ _ | lookupSwitch _ _ | multiNewArray _ _ => by
    unfold WellFormed
    infer_instance
  | ldc _ constant => inferInstanceAs (Decidable (constant.WellFormed entries))

theorem WellFormed.extends_ {before after : Entries} (extends_ : before.Extends after)
    {insn : Instruction} (wellFormed : insn.WellFormed before) : insn.WellFormed after := by
  cases insn with
  | ldc op constant => exact Loadable.WellFormed.extends_ extends_ wellFormed
  | _ => exact wellFormed

/-- The instruction as it is written: the keys of a switch rise, and a constant load has no form of
its own. -/
def canonical : Instruction → Instruction
  | lookupSwitch default pairs =>
    lookupSwitch default (pairs.mergeSort fun a b => decide (a.1 ≤ b.1))
  | other => other.normal

@[simp] theorem targets_normal (insn : Instruction) : insn.normal.targets = insn.targets := by
  cases insn <;> rfl

@[simp] theorem canonical_normal (insn : Instruction) : insn.normal.canonical = insn.canonical := by
  cases insn <;> rfl

theorem WellFormed.normal {entries : Entries} {insn : Instruction}
    (wellFormed : insn.WellFormed entries) : insn.normal.WellFormed entries := by
  cases insn <;> exact wellFormed

/-- In any table that goes on from `entries`, the closed pieces are read as the instruction, its
targets where the labels landed.  They can be closed only if there is a place for every target. -/
def SpelledBy (entries : Entries) (origin : Nat) (insn : Instruction) (pieces : List Piece) :
    Prop :=
  ∀ later, entries.Extends later → ∀ labels length bytes, length ≤ 0xFFFF →
    origin + bytes.length ≤ length →
    (∀ target ∈ insn.targets, AssembledCode.Inside labels length target) →
    AssembledCode.closeAll labels origin pieces = .ok bytes →
    (∀ target ∈ insn.targets, AssembledCode.Lands labels length target) ∧
      ∃ found, Reads (Decode.instruction later length) origin bytes (origin, found) ∧
        found.normal = insn.canonical.relabel (AssembledCode.landing labels)

theorem SpelledBy.extends_ {before after : Entries} (extends_ : before.Extends after)
    {origin : Nat} {insn : Instruction} {pieces : List Piece}
    (spelled : insn.SpelledBy before origin pieces) : insn.SpelledBy after origin pieces :=
  fun later more => spelled later (extends_.trans more)

/-- An instruction without targets. -/
theorem spelledBy_bytes {entries : Entries} {origin : Nat} {insn : Instruction} {given : Bytes}
    (lone : insn.targets = []) (plain : ∀ rename, insn.canonical.relabel rename = insn.canonical)
    (reads : ∀ later, entries.Extends later → ∀ length, ∃ found,
      Reads (Decode.instruction later length) origin given (origin, found) ∧
        found.normal = insn.canonical) :
    insn.SpelledBy entries origin [.bytes given] := by
  intro later more labels length bytes _ _ _ closed
  rw [AssembledCode.closeAll_bytes] at closed
  cases closed
  rw [plain, lone]
  exact ⟨by simp, reads later more length⟩

variable {entries : Entries} {origin : Nat}

theorem simple_spelled {op : Opcode} (alone : Decode.standsAlone op = true) :
    (simple op).SpelledBy entries origin [.bytes [op]] := by
  refine spelledBy_bytes rfl (fun _ => rfl) fun later _ length => ⟨simple op, ?_, rfl⟩
  apply Decode.reads_instruction
  rw [Decode.operands, if_pos alone]
  exact Reads.pure _ _

theorem int_spelled {op : Opcode} {operand : Int32} (wellFormed : (int op operand).WellFormed entries) :
    (int op operand).SpelledBy entries origin [.bytes (op :: operandBytes op operand)] := by
  refine spelledBy_bytes rfl (fun _ => rfl) fun later _ length => ⟨int op operand, ?_, rfl⟩
  apply Decode.reads_instruction
  rcases wellFormed with ⟨rfl, low, high⟩ | ⟨rfl, low, high⟩ | ⟨rfl, low, high⟩
  · have reads := (Reads.i1 operand.toInt8 (origin + 1)).map fun n => int bipush n.toInt32
    rw [Operand.back_from_int8 low high, Operand.low_of_int32] at reads
    exact reads
  · have reads := (Reads.i2 operand.toInt16 (origin + 1)).map fun n => int sipush n.toInt32
    rw [Operand.back_from_int16 low high, Bytes.i2, Operand.half_of_int32] at reads
    exact reads
  · have reads := (Reads.u1 operand.toUInt32.toUInt8 (origin + 1)).map fun n =>
      int newarray n.toUInt32.toInt32
    rw [Operand.back_from_byte low high] at reads
    exact reads

theorem var_spelled {op : Opcode} (slot : UInt16) (names : Decode.namesSlot op = true) :
    (var op slot).SpelledBy entries origin [.bytes (slotBytes op slot)] := by
  refine spelledBy_bytes rfl (fun _ => rfl) fun later _ length => ⟨var op slot, ?_, rfl⟩
  by_cases far : 0xFF < slot
  · rw [slotBytes, if_pos far]
    apply Decode.reads_instruction
    show Reads Decode.widened (origin + 1) ([op] ++ Bytes.u2 slot) (var op slot)
    refine Reads.offset ((Reads.u1 op _).bind ?_)
    rw [if_pos names]
    exact (Reads.u2 slot _).map (var op)
  · rw [slotBytes, if_neg far]
    apply Decode.reads_instruction
    rw [Decode.operands_slot later length origin names]
    have reads := (Reads.u1 slot.toUInt8 (origin + 1)).map fun n => var op n.toUInt16
    rw [Operand.slot_back far] at reads
    exact reads

theorem iinc_spelled (slot : UInt16) (increment : Int16) :
    (iinc slot increment).SpelledBy entries origin [.bytes (iincBytes slot increment)] := by
  refine spelledBy_bytes rfl (fun _ => rfl) fun later _ length => ⟨iinc slot increment, ?_, rfl⟩
  by_cases far : 0xFF < slot ∨ increment < -128 ∨ 127 < increment
  · rw [iincBytes, if_pos far]
    apply Decode.reads_instruction
    show Reads Decode.widened (origin + 1) ([Opcode.iinc] ++ (Bytes.u2 slot ++ Bytes.i2 increment))
      (iinc slot increment)
    refine Reads.offset ((Reads.u1 _ _).bind ?_)
    exact (Reads.u2 slot _).bind ((Reads.i2 increment _).map (iinc slot))
  · rw [iincBytes, if_neg far]
    obtain ⟨near, low, high⟩ := not_or.1 far |>.imp_right not_or.1
    apply Decode.reads_instruction
    refine (Reads.u1 slot.toUInt8 (origin + 1)).bind ?_
    show Reads (do return iinc slot.toUInt8.toUInt16 (← Reader.i1).toInt16) (origin + 2)
      [increment.toUInt16.toUInt8] (iinc slot increment)
    rw [Operand.slot_back near, ← Operand.low_of_int16]
    have reads := (Reads.i1 increment.toInt8 (origin + 2)).map fun n => iinc slot n.toInt16
    rw [Operand.increment_back low high] at reads
    exact reads

/-! ## Instructions that name constants -/

theorem type_spelled {op : Opcode} {name : String} {place : UInt16}
    (wellFormed : (type op name).WellFormed entries)
    (stands : entries.constantAt? place.toNat = some (.class name)) :
    (type op name).SpelledBy entries origin [.bytes (op :: Bytes.u2 place)] := by
  refine spelledBy_bytes rfl (fun _ => rfl) fun later more length => ⟨type op name, ?_, rfl⟩
  have found := Entries.className_of_constant (more.constantAt? stands)
  apply Decode.reads_instruction
  rcases wellFormed with rfl | rfl | rfl | rfl
  all_goals exact (Reads.u2 place _).bindNil (Reads.bindLift found (Reads.pure _ _))

theorem field_spelled {op : Opcode} {target : MemberRef} {place : UInt16}
    (wellFormed : (field op target).WellFormed entries)
    (stands : entries.constantAt? place.toNat = some (.field target)) :
    (field op target).SpelledBy entries origin [.bytes (op :: Bytes.u2 place)] := by
  refine spelledBy_bytes rfl (fun _ => rfl) fun later more length => ⟨field op target, ?_, rfl⟩
  have found := Entries.field_of_constant (more.constantAt? stands)
  apply Decode.reads_instruction
  rw [Decode.operands_field later length origin wellFormed]
  exact (Reads.u2 place _).bindNil (Reads.bindLift found (Reads.pure _ _))

theorem method_spelled {op : Opcode} {target : MemberRef} {isInterface : Bool} {place : UInt16}
    {tail : Bytes} (wellFormed : (method op target isInterface).WellFormed entries)
    (stands : entries.constantAt? place.toNat =
      some (if isInterface then .interfaceMethod target else .method target))
    (tailed : interfaceTail op target.descriptor = .ok tail) :
    (method op target isInterface).SpelledBy entries origin
      [.bytes (op :: (Bytes.u2 place ++ tail))] := by
  refine spelledBy_bytes rfl (fun _ => rfl) fun later more length =>
    ⟨method op target isInterface, ?_, rfl⟩
  have found := Entries.method_of_constant (more.constantAt? stands)
  apply Decode.reads_instruction
  rcases wellFormed with called | ⟨rfl, rfl⟩
  · have noTail : tail = [] := by
      have other : ∀ op : Opcode, within op invokevirtual invokestatic = true →
          op ≠ invokeinterface := Opcode.forall_of_bytes (by decide +kernel)
      rw [interfaceTail, if_neg (other op called)] at tailed
      cases tailed
      rfl
    subst noTail
    rw [List.append_nil, Decode.operands_method later length origin called]
    exact (Reads.u2 place _).bindNil (Reads.bindLift found (Reads.pure _ _))
  · have two : tail.length = 2 := by
      rw [interfaceTail, if_pos rfl] at tailed
      split at tailed
      · cases tailed
        rfl
      · cases tailed
    exact (Reads.u2 place _).bind
      (Reads.bindLift found ((Reads.bytes two _).bindNil (Reads.pure _ _)))

theorem invokeDynamic_spelled {bootstrap : UInt16} {name descriptor : String} {place : UInt16}
    (stands : entries.constantAt? place.toNat = some (.invokeDynamic bootstrap name descriptor)) :
    (invokeDynamic bootstrap name descriptor).SpelledBy entries origin
      [.bytes (invokedynamic :: (Bytes.u2 place ++ [0, 0]))] := by
  refine spelledBy_bytes rfl (fun _ => rfl) fun later more length =>
    ⟨invokeDynamic bootstrap name descriptor, ?_, rfl⟩
  have found := Entries.invokeDynamic_of_constant (more.constantAt? stands)
  apply Decode.reads_instruction
  have two : ([0, 0] : Bytes).length = 2 := rfl
  exact (Reads.u2 place _).bind
    (Reads.bindLift found ((Reads.bytes two _).bindNil (Reads.pure _ _)))

theorem multiNewArray_spelled {name : String} {dimensions : UInt8} {place : UInt16}
    (stands : entries.constantAt? place.toNat = some (.class name)) :
    (multiNewArray name dimensions).SpelledBy entries origin
      [.bytes (multianewarray :: (Bytes.u2 place ++ [dimensions]))] := by
  refine spelledBy_bytes rfl (fun _ => rfl) fun later more length =>
    ⟨multiNewArray name dimensions, ?_, rfl⟩
  have found := Entries.className_of_constant (more.constantAt? stands)
  apply Decode.reads_instruction
  exact (Reads.u2 place _).bind
    (Reads.bindLift found ((Reads.u1 dimensions _).map (multiNewArray name)))

/-- A constant load is read in the form that its place asked for. -/
theorem ldc_spelled {op : Opcode} {constant : Loadable} {place : UInt16}
    (stands : entries.loadable place = .ok constant) :
    (ldc op constant).SpelledBy entries origin [.bytes (ldcBytes constant.isWide place)] := by
  refine spelledBy_bytes rfl (fun _ => rfl) fun later more length => ?_
  have found := more.loadable stands
  have long (form : Opcode) : Reads (do
      let place ← Reader.u2
      return ldc form (← Reader.lift (later.loadable place))) (origin + 1) (Bytes.u2 place)
      (ldc form constant) :=
    (Reads.u2 place _).bindNil (Reads.bindLift found (Reads.pure _ _))
  unfold ldcBytes
  split
  · exact ⟨ldc ldc2W constant, Decode.reads_instruction (long ldc2W), rfl⟩
  · split
    · rename_i near
      refine ⟨ldc Opcode.ldc constant, Decode.reads_instruction ?_, rfl⟩
      have back : place.toUInt8.toUInt16 = place := Operand.slot_back (UInt16.not_lt.2 near)
      refine (Reads.u1 place.toUInt8 _).bindNil (Reads.bindLift ?_ (Reads.pure _ _))
      rw [back]
      exact found
    · exact ⟨ldc ldcW constant, Decode.reads_instruction (long ldcW), rfl⟩

/-! ## Instructions with targets -/

theorem jump_spelled {op : Opcode} {target : Label}
    (wellFormed : (jump op target).WellFormed entries) :
    (jump op target).SpelledBy entries origin
      [.bytes [op], if isFarJump op then .far target else .near target] := by
  intro later more labels length bytes small room inside closed
  have within := inside target List.mem_cons_self
  obtain ⟨rest, others, rfl⟩ := AssembledCode.closeAll_bytes_cons_eq_ok.1 closed
  -- Near and far jumps have different opcodes, so the reader knows how wide the distance is.
  have apart : ∀ op : Opcode, Decode.jumpsNear op = true → isFarJump op = false :=
    Opcode.forall_of_bytes (by decide +kernel)
  have alone (lands : AssembledCode.Lands labels length target) :
      ∀ other ∈ (jump op target).targets, AssembledCode.Lands labels length other := by
    intro other among
    obtain rfl := List.mem_singleton.1 among
    exact lands
  rcases wellFormed with near | far
  · rw [apart op near] at others
    obtain ⟨distance, nothing, one, none, rfl⟩ := AssembledCode.closeAll_cons_eq_ok.1 others
    rw [AssembledCode.closeAll_nil_eq_ok] at none
    obtain ⟨lands, rfl, low, high⟩ := AssembledCode.close_near within one
    refine ⟨alone lands, jump op (AssembledCode.landing labels target), ?_, rfl⟩
    apply Decode.reads_instruction
    rw [Decode.operands_near later length origin near, none, List.append_nil]
    exact (Decode.reads_near lands.landing_lt _ low high).map (jump op)
  · have opens : isFarJump op = true := by
      rcases far with rfl | rfl <;> rfl
    rw [opens] at others
    obtain ⟨lands, nothing, none, rfl⟩ := AssembledCode.closeAll_far_cons within others
    rw [AssembledCode.closeAll_nil_eq_ok] at none
    have inCode : origin ≤ length := by omega
    have reads := Decode.reads_far lands.landing_lt inCode small (origin + 1)
    refine ⟨alone lands, jump op (AssembledCode.landing labels target), ?_, rfl⟩
    apply Decode.reads_instruction
    rw [none, List.append_nil]
    rcases far with rfl | rfl
    · exact reads.map (jump gotoW)
    · exact reads.map (jump jsrW)

theorem length_switchPadding (offset : Nat) :
    (switchPadding offset).length = (4 - (offset + 1) % 4) % 4 := by
  simp [switchPadding]

theorem tableSwitch_spelled {low high : Int32} {default : Label} {targets : List Label}
    (wellFormed : (tableSwitch low high default targets).WellFormed entries) :
    (tableSwitch low high default targets).SpelledBy entries origin
      (.bytes (tableswitch :: switchPadding origin) :: .far default
        :: .bytes (Bytes.i4 low ++ Bytes.i4 high) :: targets.map .far) := by
  intro later more labels length bytes small room inside closed
  have others (target : Label) (among : target ∈ targets) :
      AssembledCode.Inside labels length target := inside target (List.mem_append_left _ among)
  have last : AssembledCode.Inside labels length default :=
    inside default (List.mem_append_right _ List.mem_cons_self)
  obtain ⟨_, afterPadding, rfl⟩ := AssembledCode.closeAll_bytes_cons_eq_ok.1 closed
  obtain ⟨defaultLands, _, afterDefault, rfl⟩ := AssembledCode.closeAll_far_cons last afterPadding
  obtain ⟨_, rest, rfl⟩ := AssembledCode.closeAll_bytes_cons_eq_ok.1 afterDefault
  obtain ⟨land, rfl⟩ := AssembledCode.closeAll_targets others rest
  refine ⟨?_, tableSwitch low high (AssembledCode.landing labels default)
    (targets.map (AssembledCode.landing labels)), ?_, rfl⟩
  · intro target among
    rcases List.mem_append.1 among with listed | final
    · exact land target listed
    · obtain rfl := List.mem_singleton.1 final
      exact defaultLands
  · rw [List.cons_append, List.append_assoc]
    apply Decode.reads_instruction
    have far (landed : Label) (within : landed.id < length) (start : Nat) :
        Reads (Decode.far length origin) start (AssembledCode.farBytes origin landed) landed :=
      Decode.reads_far within (by omega) small start
    refine (Reads.bytes (length_switchPadding origin) _).bind ?_
    refine (far _ defaultLands.landing_lt _).bind ?_
    refine (Reads.i4 low _).bind ((Reads.i4 high _).bind ?_)
    have each : ∀ landed ∈ targets.map (AssembledCode.landing labels), ∀ start,
        Reads (Decode.far length origin) start (AssembledCode.farBytes origin landed) landed := by
      intro landed among start
      obtain ⟨target, known, rfl⟩ := List.mem_map.1 among
      exact far _ (land target known).landing_lt start
    have taken (start : Nat) := Reads.times _ [] start each
    -- The reader takes the number of targets from the two keys.
    have number : (targets.map (AssembledCode.landing labels)).length =
        (high.toInt - low.toInt + 1).toNat := by
      rw [List.length_map]
      exact wellFormed
    rw [number] at taken
    exact (taken _).map (tableSwitch low high _)

/-- A key and where it leads. -/
def pairBytes (origin : Nat) : Int32 × Label → Bytes
  | (key, landed) => Bytes.i4 key ++ AssembledCode.farBytes origin landed

theorem length_pairBytes (origin : Nat) : ∀ pairs : List (Int32 × Label),
    (pairs.flatMap (pairBytes origin)).length = 8 * pairs.length
  | [] => rfl
  | pair :: pairs => by
    have one : (pairBytes origin pair).length = 8 := rfl
    rw [List.flatMap_cons, List.length_append, one, length_pairBytes origin pairs, List.length_cons]
    omega

theorem lookupSwitch_spelled (default : Label) (pairs : List (Int32 × Label)) :
    (lookupSwitch default pairs).SpelledBy entries origin
      (.bytes (lookupswitch :: switchPadding origin) :: .far default
        :: .bytes (Bytes.u4 (UInt32.ofNat pairs.length))
        :: (pairs.mergeSort fun a b => decide (a.1 ≤ b.1)).flatMap
          fun (key, target) => [.bytes (Bytes.i4 key), .far target]) := by
  intro later more labels length bytes small room inside closed
  let sorted := pairs.mergeSort fun a b => decide (a.1 ≤ b.1)
  let landed := sorted.map fun (key, target) => (key, AssembledCode.landing labels target)
  have others (pair : Int32 × Label) (among : pair ∈ sorted) :
      AssembledCode.Inside labels length pair.2 := by
    have known : pair ∈ pairs := List.mem_mergeSort.1 among
    exact inside pair.2 (List.mem_append_left _ (List.mem_map_of_mem known))
  have last : AssembledCode.Inside labels length default :=
    inside default (List.mem_append_right _ List.mem_cons_self)
  obtain ⟨_, afterPadding, rfl⟩ := AssembledCode.closeAll_bytes_cons_eq_ok.1 closed
  obtain ⟨defaultLands, _, afterDefault, rfl⟩ := AssembledCode.closeAll_far_cons last afterPadding
  obtain ⟨tail, rest, rfl⟩ := AssembledCode.closeAll_bytes_cons_eq_ok.1 afterDefault
  have closedPairs : (∀ pair ∈ sorted, AssembledCode.Lands labels length pair.2) ∧
      tail = landed.flatMap (pairBytes origin) := AssembledCode.closeAll_pairs others rest
  obtain ⟨land, rfl⟩ := closedPairs
  refine ⟨?_, lookupSwitch (AssembledCode.landing labels default) landed, ?_, rfl⟩
  · intro target among
    rcases List.mem_append.1 among with listed | final
    · obtain ⟨pair, known, rfl⟩ := List.mem_map.1 listed
      exact land pair (List.mem_mergeSort.2 known)
    · obtain rfl := List.mem_singleton.1 final
      exact defaultLands
  · have size : landed.length = pairs.length := by
      rw [List.length_map, List.length_mergeSort]
    -- Each pair takes eight bytes of a code that is short enough, so the count is not negative.
    have few : landed.length ≤ 0xFFFF := by
      have pairSizes := length_pairBytes origin landed
      simp only [List.length_append, pairSizes] at room
      omega
    have number : (Int32.ofNat pairs.length).toInt.toNat = landed.length := by
      rw [Int32.toInt_ofNat_of_lt (by omega), Int.toNat_natCast, size]
    have far (landed : Label) (within : landed.id < length) (start : Nat) :
        Reads (Decode.far length origin) start (AssembledCode.farBytes origin landed) landed :=
      Decode.reads_far within (by omega) small start
    have each : ∀ pair ∈ landed, ∀ start,
        Reads (Decode.switchPair length origin) start (pairBytes origin pair) pair := by
      intro pair among start
      obtain ⟨⟨key, target⟩, known, rfl⟩ := List.mem_map.1 among
      exact (Reads.i4 key _).bind ((far _ (land _ known).landing_lt _).map (key, ·))
    have taken (start : Nat) := Reads.times landed [] start each
    rw [← number] at taken
    rw [List.cons_append]
    apply Decode.reads_instruction
    refine (Reads.bytes (length_switchPadding origin) _).bind ?_
    refine (far _ defaultLands.landing_lt _).bind ?_
    exact (Reads.i4 (Int32.ofNat pairs.length) _).bind ((taken _).map (lookupSwitch _))

/-! ## All instructions -/

/-- What is written for a well-formed instruction spells it. -/
theorem pieces_leads {pool : ConstantPool} (sound : pool.Sound) (origin : Nat) {insn : Instruction}
    (wellFormed : insn.WellFormed pool.entries) :
    Interning.Leads (insn.pieces origin) pool fun pieces after =>
      insn.SpelledBy after.entries origin pieces := by
  cases insn with
  | simple op => exact .pure (simple_spelled wellFormed)
  | int op operand => exact .pure (int_spelled wellFormed)
  | var op slot => exact .pure (var_spelled slot wellFormed)
  | type op name =>
    exact (Interning.className_leads sound name).bind fun place after _ stands =>
      .pure (type_spelled wellFormed stands)
  | field op target =>
    exact (Interning.field_leads sound target).bind fun place after _ stands =>
      .pure (field_spelled wellFormed stands)
  | method op target isInterface =>
    refine (Interning.method_leads sound target isInterface).bind fun place after _ stands => ?_
    refine (Interning.Leads.lift _).bind fun tail after' _ => ?_
    rintro ⟨tailed, rfl⟩
    exact .pure (method_spelled wellFormed stands tailed)
  | invokeDynamic bootstrap name descriptor =>
    exact (Interning.invokeDynamic_leads sound bootstrap name descriptor).bind
      fun place after _ stands => .pure (invokeDynamic_spelled stands)
  | jump op target => exact .pure (jump_spelled wellFormed)
  | ldc op constant =>
    exact (Interning.loadable_leads sound wellFormed).bind fun place after _ stands =>
      .pure (ldc_spelled stands)
  | iinc slot increment => exact .pure (iinc_spelled slot increment)
  | tableSwitch low high default targets => exact .pure (tableSwitch_spelled wellFormed)
  | lookupSwitch default pairs => exact .pure (lookupSwitch_spelled default pairs)
  | multiNewArray name dimensions =>
    exact (Interning.className_leads sound name).bind fun place after _ stands =>
      .pure (multiNewArray_spelled stands)

/-- Every instruction takes room. -/
theorem pieces_filled {pool : ConstantPool} (sound : pool.Sound) (origin : Nat)
    (insn : Instruction) :
    Interning.Leads (insn.pieces origin) pool fun pieces _ => 0 < Layout.sizeOf pieces := by
  -- All instructions start with bytes, the opcode at least.
  have first {bytes : Bytes} {pieces : List Piece} (filled : bytes ≠ []) :
      0 < Layout.sizeOf (.bytes bytes :: pieces) := by
    have some := List.length_pos_iff.2 filled
    simp only [Layout.sizeOf, List.foldr_cons, Piece.size]
    omega
  cases insn with
  | simple | int | jump | tableSwitch | lookupSwitch => exact .pure (first (by simp))
  | var op slot =>
    refine .pure (first ?_)
    unfold slotBytes
    split <;> simp
  | type op name =>
    exact (Interning.className_leads sound name).bind fun _ _ _ _ => .pure (first (by simp))
  | field op target =>
    exact (Interning.field_leads sound target).bind fun _ _ _ _ => .pure (first (by simp))
  | method op target isInterface =>
    exact (Interning.method_leads sound target isInterface).bind fun _ _ _ _ =>
      (Interning.Leads.lift _).bind fun _ _ _ _ => .pure (first (by simp))
  | invokeDynamic bootstrap name descriptor =>
    exact (Interning.invokeDynamic_leads sound bootstrap name descriptor).bind fun _ _ _ _ =>
      .pure (first (by simp))
  | ldc op constant =>
    have grows : Interning.Leads (Interning.loadable constant) pool fun _ _ => True :=
      ⟨Interning.loadable_grows constant pool sound, fun _ _ => trivial⟩
    refine grows.bind fun place _ _ _ => .pure (first ?_)
    unfold ldcBytes
    split
    · simp
    · split <;> simp
  | iinc slot increment =>
    refine .pure (first ?_)
    unfold iincBytes
    split <;> simp
  | multiNewArray name dimensions =>
    exact (Interning.className_leads sound name).bind fun _ _ _ _ => .pure (first (by simp))

end Instruction

end ClassWeave
