/-
# ClassWeave.Proofs.PayloadReading -- what a reader makes of an encoded payload

`AssembledCode.encode` puts up to four tables behind the code, each under its name and only
if it has a row.  A reader that is given the payload and the pool it was encoded over finds
the sizes, the code, the handlers and these tables again, and no other attribute
(`AssembledCode.read_encode`).

The payload is taken apart as long as four bytes can say how long each attribute is, and
then only.  With tables that can be counted this is a question of the stack map alone, and
`StackMap.size` tells its length from its frames: 65535 of them stay below the limit with
21843 types each (`StackMap.size_lt`).  With 65535 types each they do not, and there is no
error but when the payload is read (`AssembledCode.crammed_unread`).
-/
import ClassWeave.Proofs.CodeTables
import ClassWeave.Proofs.LatestFrames
import Mathlib.Algebra.Order.BigOperators.Group.List
import Mathlib.Algebra.Order.Ring.Nat

set_option autoImplicit false

namespace ClassWeave

/-! ## How long a stack map is -/

/-- The number of bytes for the type of a slot. -/
def FrameType.size : FrameType → Nat
  | object _ | uninitialized _ => 3
  | _ => 1

theorem FrameType.size_le (type : FrameType) : type.size ≤ 3 := by
  unfold size
  split <;> decide

theorem FrameType.size_relabel (rename : Label → Label) (type : FrameType) :
    (type.relabel rename).size = type.size := by
  cases type <;> rfl

theorem SlotEntry.length_write {entries : Entries} {slot : SlotEntry} {type : FrameType}
    (resolved : slot.resolve entries = .ok type) : slot.write.length = type.size := by
  cases slot with
  | object index =>
    obtain ⟨name, _, same⟩ := Outcome.bind_eq_ok.1 resolved
    cases same
    rfl
  | _ =>
    cases resolved
    rfl

namespace StackMap

/-- The number of bytes for types one after the other. -/
def typesSize (types : List FrameType) : Nat := (types.map FrameType.size).sum

/-- The number of bytes for a table of frames in full: the count of frames, and for each frame a
tag, its distance, and its types behind two counts. -/
def size (frames : List PinnedFrame) : Nat :=
  2 + (frames.map fun frame => 7 + typesSize frame.locals + typesSize frame.stack).sum

theorem typesSize_le (types : List FrameType) : typesSize types ≤ 3 * types.length := by
  have each := List.sum_le_card_nsmul (types.map FrameType.size) 3 fun size among => by
    obtain ⟨type, _, rfl⟩ := List.mem_map.1 among
    exact type.size_le
  rw [List.length_map, Nat.nsmul_eq_mul, Nat.mul_comm] at each
  exact each

/-- Frames of a few thousand types each do not fill a table. -/
theorem size_lt {frames : List PinnedFrame} (few : frames.length ≤ 0xFFFF)
    (short : ∀ frame ∈ frames, frame.locals.length + frame.stack.length ≤ 21843) :
    size frames < 2 ^ 32 := by
  have each := List.sum_le_card_nsmul
    (frames.map fun frame => 7 + typesSize frame.locals + typesSize frame.stack) 0x10000
    fun size among => by
      obtain ⟨frame, held, rfl⟩ := List.mem_map.1 among
      have := short frame held
      have := typesSize_le frame.locals
      have := typesSize_le frame.stack
      omega
  rw [List.length_map, Nat.nsmul_eq_mul] at each
  rw [size]
  omega

variable {assembled : AssembledCode} {entries : Entries} {next : Nat}
  {rows : List (Nat × PinnedFrame)} {table : List StackMapEntry}

theorem length_types {slots : List SlotEntry} {types : List FrameType}
    (stand : List.Forall₂ (SlotEntry.Stands assembled entries) slots types) :
    (slots.flatMap SlotEntry.write).length = typesSize types := by
  induction stand with
  | nil => rfl
  | @cons slot type _ _ one _ ih =>
    have own := (SlotEntry.length_write one).trans (type.size_relabel _)
    rw [List.flatMap_cons, List.length_append, ih, own]
    exact List.sum_cons.symm

theorem typesSize_told (types : List FrameType) :
    typesSize (types.map (FrameType.relabel (AssembledCode.landing assembled.labels))) =
      typesSize types := by
  rw [typesSize, List.map_map]
  exact congrArg List.sum (List.map_congr_left fun type _ => type.size_relabel _)

theorem Tells.size_eq (tells : Tells assembled entries next rows table) :
    2 + (table.flatMap StackMapEntry.write).length = size (rows.map (told assembled)) := by
  induction tells with
  | nil => rfl
  | cons locals_ stack_ _ ih =>
    rw [size, Nat.add_left_cancel_iff] at ih ⊢
    rw [List.flatMap_cons, List.length_append, ih, List.map_cons, List.map_cons, List.sum_cons,
      Nat.add_right_cancel_iff, StackMapEntry.write, told, typesSize_told, typesSize_told,
      ← length_types locals_, ← length_types stack_]
    simp only [List.length_cons, List.length_append, Bytes.length_u2, Bytes.length_count]
    omega

end StackMap

/-! ## Which attributes there are -/

namespace Attribute.Tabled

variable {entries : Entries} {name : String} {rows : List Bytes} {attributes : List Attribute}

/-- An attribute is there only for rows. -/
theorem names (tabled : Tabled entries name rows attributes) :
    attributes.map (·.name) = if rows.isEmpty then [] else [name] := by
  cases tabled with
  | nothing => rfl
  | table _ filled => rw [if_neg fun empty => filled (List.isEmpty_iff.1 empty)]; rfl

/-- The attribute is short enough for its length if its rows are. -/
theorem short_iff (tabled : Tabled entries name rows attributes) :
    (∀ given ∈ attributes, given.payload.length < 2 ^ 32) ↔ 2 + rows.flatten.length < 2 ^ 32 := by
  cases tabled with
  | nothing => exact iff_of_true (List.forall_mem_nil _) (by decide)
  | table => rw [List.forall_mem_singleton, List.length_append, Bytes.length_count]

theorem eq_nil (tabled : Tabled entries name [] attributes) : attributes = [] :=
  List.map_eq_nil_iff.1 tabled.names

end Attribute.Tabled

/-- The names of the attributes for the tables, each under its name if it has a row. -/
def CodeTables.names (tables : CodeTables) : List String :=
  (if tables.frames.isEmpty then [] else [Attribute.stackMapTable])
    ++ (if tables.lines.isEmpty then [] else [Attribute.lineNumberTable])
    ++ (if tables.scopes.isEmpty then [] else [Attribute.localVariableTable])
    ++ if tables.types.isEmpty then [] else [Attribute.localVariableTypeTable]

/-- Rows of one length are as long as their number says. -/
theorem length_flatten_rows {α : Type} {write : α → Bytes} {size : Nat}
    (each : ∀ row, (write row).length = size) (rows : List α) :
    (rows.map write).flatten.length = rows.length * size := by
  have same : List.length ∘ write = Function.const α size := funext each
  rw [List.length_flatten, List.map_map, same, List.map_const, List.sum_replicate_nat]

namespace CodeAttribute

/-- What is read from the attributes of the code is the tables, and there is no attribute but for a
table with rows. -/
structure Holds (code : CodeAttribute) (tables : CodeTables) : Prop where
  frames : code.stackMap = .ok tables.frames
  lines : code.lines = .ok tables.lines
  scopes : code.variableRows = .ok tables.scopes
  types : code.variableTypes = .ok tables.types
  names : code.attributes.map (·.name) = tables.names

namespace Carries

variable {code : CodeAttribute} {entries : Entries} {tables : CodeTables}

theorem names (carries : code.Carries entries tables) :
    code.attributes.map (·.name) = tables.names := by
  obtain ⟨frames, lines, scopes, types, whole, first, second, third, fourth⟩ := carries.attributes
  simp only [whole, List.map_append, first.names, second.names, third.names, fourth.names,
    List.isEmpty_map]
  rfl

/-- With tables that can be counted, only a stack map may be too long for an attribute. -/
theorem short_iff (carries : code.Carries entries tables) (lines_ : tables.lines.length ≤ 0xFFFF)
    (scopes_ : tables.scopes.length ≤ 0xFFFF) (types_ : tables.types.length ≤ 0xFFFF) :
    (∀ given ∈ code.attributes, given.payload.length < 2 ^ 32) ↔
      2 + (tables.frames.flatMap StackMapEntry.write).length < 2 ^ 32 := by
  obtain ⟨frames, lines, scopes, types, whole, first, second, third, fourth⟩ := carries.attributes
  simp only [whole, List.forall_mem_append, first.short_iff, second.short_iff, third.short_iff,
    fourth.short_iff]
  have four (row : LineEntry) : row.write.length = 4 := rfl
  have ten (row : VariableEntry) : row.write.length = 10 := rfl
  rw [length_flatten_rows four, length_flatten_rows ten, length_flatten_rows ten,
    ← List.flatMap_def]
  omega

end Carries

variable {code : CodeAttribute} {entries : Entries}

/-- A payload whose only attribute is longer than four bytes can say is not read: a part of the
attribute is left over. -/
theorem read_overlong {given : Attribute} (only : code.attributes = [given])
    (named : entries.utf8 given.nameIndex = .ok given.name) (short : code.code.length < 2 ^ 32)
    (few : code.handlers.length < 0x10000) (long : 2 ^ 32 ≤ given.payload.length) :
    read entries code.write = .error (.invalidAttribute Attribute.code) := by
  -- The payload begins like that of code whose attribute is as short as its length says.
  let told := given.payload.length % 2 ^ 32
  let cut : Attribute := { given with payload := given.payload.take told }
  let seen : CodeAttribute := { code with attributes := [cut] }
  have below : told < 2 ^ 32 := Nat.mod_lt _ (by decide)
  have size : cut.payload.length = told := by
    rw [List.length_take]
    omega
  have fits : seen.Fits entries :=
    ⟨short, few, (by decide : 1 < 0x10000), fun other among => by
      obtain rfl := List.mem_singleton.1 among
      exact ⟨named, size ▸ below⟩⟩
  have length : UInt32.ofNat given.payload.length = UInt32.ofNat cut.payload.length := by
    rw [size, ← UInt32.toNat_inj]
    simp only [UInt32.toNat_ofNat', told, Nat.mod_mod]
  have split : code.write = seen.write ++ given.payload.drop told := by
    rw [write, write, only]
    simp only [seen, Attribute.writeTable, Attribute.write, List.flatMap_singleton, length,
      List.length_singleton, List.append_assoc]
    simp only [cut, List.take_append_drop]
  have leftOver : (given.payload.drop told).isEmpty = false := by
    rw [List.isEmpty_eq_false_iff, ← List.length_pos_iff, List.length_drop]
    omega
  rw [split, read, Reader.runAll, Cursor.start, reads_write fits]
  simp only
  rw [leftOver]
  rfl

end CodeAttribute

/-! ## Whole payloads -/

namespace AssembledCode

variable {assembled : AssembledCode} {handlers : List HandlerEntry}
  {frames : Option (List PinnedFrame)} {declared : List Variable} {maxStack maxLocals : UInt16}

/-- **An encoded payload is read back as what it was encoded from.**  Its tables have a row for each
line before the end of the code, each variable whose range goes forward, each of these with a
signature, and the last frame of each offset. -/
theorem read_encode {table : Entries} {pool after : ConstantPool}
    (grown : (ConstantPool.ofEntries table).Grown pool) (short : assembled.Short)
    (lines_ : assembled.lines.length ≤ 0xFFFF) (handlers_ : handlers.length ≤ 0xFFFF)
    (declared_ : declared.length ≤ 0xFFFF) (countable : ∀ frame ∈ frames.getD [],
      frame.locals.length ≤ 0xFFFF ∧ frame.stack.length ≤ 0xFFFF)
    {payload : Bytes} (done : assembled.encode maxStack maxLocals handlers frames declared pool =
      (.ok payload, after)) :
    ∃ code tables found,
      (CodeAttribute.read after.entries payload = .ok code ↔ StackMap.size found < 2 ^ 32) ∧
      code.maxStack = maxStack ∧ code.maxLocals = maxLocals ∧ code.code = assembled.code ∧
      code.handlers = handlers ∧ code.Holds tables ∧
      assembled.Fills after.entries (frames.getD []) declared tables ∧
      (∀ initial, StackMapEntry.expand after.entries initial tables.frames = .ok found) ∧
      StackMap.Latest assembled (frames.getD []) found := by
  obtain ⟨-, attributes, tables, same, carries, fills⟩ := (encode_leads short.labels
    (grown.sound (ConstantPool.ofEntries_sound table)) maxStack maxLocals handlers frames
    declared).of_eq_ok done
  subst same
  obtain ⟨rows, chosen, tells⟩ := fills.frames
  obtain ⟨rising, inside⟩ := StackMap.kept_rising chosen
  -- All counts fit into two bytes, so only the four bytes of a table's size can be too few.
  have small : ∀ row ∈ rows, row.1 < 0xFFFF := fun row among =>
    Nat.lt_of_lt_of_le (inside row among) short.code
  have fewLines : tables.lines.length ≤ 0xFFFF := by
    rw [fills.lines.length_eq]
    exact Nat.le_trans (List.length_filter_le _ _) lines_
  have fewScopes : tables.scopes.length ≤ 0xFFFF := by
    rw [fills.scopes.length_eq]
    exact Nat.le_trans (List.length_filter_le _ _) declared_
  have fewTypes : tables.types.length ≤ 0xFFFF := by
    rw [fills.types.length_eq]
    exact Nat.le_trans (List.length_filter_le _ _) (fills.scopes.length_eq ▸ fewScopes)
  refine ⟨_, tables, rows.map (StackMap.told assembled), ?_, rfl, rfl, rfl, rfl,
    ⟨?_, ?_, ?_, ?_, carries.names⟩, fills, fun initial => ?_, StackMap.kept_latest chosen⟩
  · rw [CodeAttribute.read_write_iff, carries.fits_iff short.code,
      carries.short_iff fewLines fewScopes fewTypes, tells.size_eq]
    exact and_iff_right (Nat.lt_succ_of_le handlers_)
  · refine (carries.stackMap_iff tells rising small).2 fun row among => ?_
    have few := countable row.2 (StackMap.mem_of_kept chosen row among)
    omega
  · exact carries.lines_iff.2 (Nat.lt_succ_of_le fewLines)
  · exact carries.variableRows_iff.2 (Nat.lt_succ_of_le fewScopes)
  · exact carries.variableTypes_iff.2 (Nat.lt_succ_of_le fewTypes)
  · exact tells.expand initial [] rising fun row among =>
      ⟨Nat.zero_le _, Nat.le_of_lt (small row among)⟩

/-- Code with a line inside it and one at its end. -/
def Sample.lined : List Node :=
  [.label ⟨0⟩, .line 7 ⟨0⟩, .insn (.simple Opcode.nop), .label ⟨1⟩,
    .insn (.simple Opcode.voidReturn), .label ⟨2⟩, .line 9 ⟨2⟩]

/-- Variables with and without a signature, and one whose range ends before it starts. -/
def Sample.variables : List Variable :=
  [⟨"n", "I", none, ⟨0⟩, ⟨2⟩, 1⟩, ⟨"t", "LA;", some "TT;", ⟨1⟩, ⟨2⟩, 2⟩,
    ⟨"u", "LA;", some "TU;", ⟨2⟩, ⟨0⟩, 3⟩]

def Sample.framed : List PinnedFrame := [⟨⟨1⟩, [.object "demo/C", .long], []⟩]

def Sample.guard : List HandlerEntry := [⟨0, 1, 1, 0⟩]

theorem read_encode_lined : ∃ assembled pool payload after,
    assemble Sample.lined (ConstantPool.ofEntries #[]) = (.ok assembled, pool) ∧
    (ConstantPool.ofEntries #[]).Grown pool ∧ assembled.Short ∧
    assembled.lines.length ≤ 0xFFFF ∧ Sample.guard.length ≤ 0xFFFF ∧
    Sample.variables.length ≤ 0xFFFF ∧ (∀ frame ∈ (some Sample.framed).getD [],
      frame.locals.length ≤ 0xFFFF ∧ frame.stack.length ≤ 0xFFFF) ∧
    assembled.encode 2 4 Sample.guard (some Sample.framed) Sample.variables pool =
      (.ok payload, after) ∧
    ∃ code tables found,
      (CodeAttribute.read after.entries payload = .ok code ↔ StackMap.size found < 2 ^ 32) ∧
      code.maxStack = 2 ∧ code.maxLocals = 4 ∧ code.code = assembled.code ∧
      code.handlers = Sample.guard ∧ code.Holds tables ∧
      assembled.Fills after.entries ((some Sample.framed).getD []) Sample.variables tables ∧
      (∀ initial, StackMapEntry.expand after.entries initial tables.frames = .ok found) ∧
      StackMap.Latest assembled ((some Sample.framed).getD []) found := by
  have runs : ((do
      let assembled ← assemble Sample.lined
      assembled.encode 2 4 Sample.guard (some Sample.framed) Sample.variables)
        (ConstantPool.ofEntries #[])).1.toBool = true := by
    simp only [encode, stackMapTable, StackMap.encode_by_insertion]
    decide +kernel
  rcases whole : (do
    let assembled ← assemble Sample.lined
    assembled.encode 2 4 Sample.guard (some Sample.framed) Sample.variables)
      (ConstantPool.ofEntries #[]) with ⟨cause | payload, after⟩
  · rw [whole] at runs
    cases runs
  · obtain ⟨assembled, pool, assembles, done⟩ := Interning.bind_eq_ok.1 whole
    have sound := ConstantPool.ofEntries_sound #[]
    obtain ⟨layout, _, laid⟩ := assemble_eq_ok sound assembles
    have grown := (assemble_grows Sample.lined).grown sound assembles
    have short := Short.of_assemble sound assembles
    have lines_ : assembled.lines.length ≤ 0xFFFF := by
      rw [laid.lines_eq]
      decide
    have handlers_ : Sample.guard.length ≤ 0xFFFF := by decide
    have declared_ : Sample.variables.length ≤ 0xFFFF := by decide
    have countable : ∀ frame ∈ (some Sample.framed).getD [],
        frame.locals.length ≤ 0xFFFF ∧ frame.stack.length ≤ 0xFFFF := by decide
    exact ⟨assembled, pool, payload, after, assembles, grown, short, lines_, handlers_, declared_,
      countable, done, read_encode grown short lines_ handlers_ declared_ countable done⟩

/-! ### Frames that are too many and too wide -/

/-- So many labels, each at an offset of its own. -/
def Sample.marks (count : Nat) : Std.TreeMap Label Nat :=
  (List.range count).foldl (fun marks i => marks.insert ⟨i⟩ i) ∅

/-- As many instructions with a label before each, and one at the end. -/
def Sample.marked (count : Nat) : AssembledCode :=
  ⟨List.replicate count Opcode.nop, marks (count + 1), []⟩

/-- A frame with so many locals. -/
def Sample.wide (width : Nat) (i : Nat) : PinnedFrame := ⟨⟨i⟩, List.replicate width .int, []⟩

/-- Such a frame at each instruction. -/
def Sample.crammed (count width : Nat) : List PinnedFrame :=
  (List.range count).map (wide width)

/-- The frames with their offsets. -/
def Sample.rows (count width : Nat) : List (Nat × PinnedFrame) :=
  (List.range count).map fun i => (i, wide width i)

theorem Sample.marks_succ (count : Nat) :
    marks (count + 1) = (marks count).insert ⟨count⟩ count := by
  rw [marks, List.range_succ, List.foldl_append]
  rfl

theorem Sample.getElem?_marks (count : Nat) (label : Label) :
    (marks count)[label]? = if label.id < count then some label.id else none := by
  induction count with
  | zero => simp [marks]
  | succ count ih =>
    rw [marks_succ, Std.TreeMap.getElem?_insert, ih]
    simp only [Std.compare_eq_iff_eq]
    obtain ⟨id⟩ := label
    simp only [Label.mk.injEq]
    grind

theorem Sample.offsetOf_marked {count : Nat} {label : Label} {offset : Nat} :
    (marked count).offsetOf label = .ok offset ↔ label.id ≤ count ∧ offset = label.id := by
  rw [offsetOf, place, marked, getElem?_marks, ← Nat.lt_succ_iff]
  by_cases inside : label.id < count + 1 <;> simp [inside, eq_comm]

theorem Sample.marked_short {count : Nat} (small : count ≤ 0xFFFF) : (marked count).Short where
  code := by rwa [marked, List.length_replicate]
  labels label offset known := by
    obtain ⟨inside, rfl⟩ := offsetOf_marked.1 known
    omega

theorem Sample.placed_crammed (count width : Nat) :
    StackMap.placed (marked count) (marked count).code.length (crammed count width) =
      .ok (rows count width) := by
  refine Outcome.bind_eq_ok.2 ⟨rows count width, ?_, ?_⟩
  · rw [Outcome.mapM_eq_ok, crammed, rows, List.forall₂_map_left_iff, List.forall₂_map_right_iff,
      List.forall₂_same]
    intro i among
    exact Outcome.bind_eq_ok.2 ⟨i, offsetOf_marked.2 ⟨Nat.le_of_lt (List.mem_range.1 among), rfl⟩, rfl⟩
  · refine congrArg Except.ok (List.filter_eq_self.2 fun row among => ?_)
    obtain ⟨i, inside, rfl⟩ := List.mem_map.1 among
    rw [marked, List.length_replicate]
    exact decide_eq_true (List.mem_range.1 inside)

/-- The frames come in order, no two of them at one offset. -/
theorem Sample.sorted_crammed (count width : Nat) :
    StackMap.lastOfEach ((rows count width).mergeSort fun a b => decide (a.1 ≤ b.1)) =
      rows count width := by
  have rising : (rows count width).Pairwise fun a b => a.1 < b.1 :=
    List.pairwise_map.2 List.pairwise_lt_range
  have sorted := List.mergeSort_of_pairwise (rising.imp fun {a b} less =>
    decide_eq_true (Nat.le_of_lt less))
  rw [sorted, StackMap.lastOfEach_of_rising rising]

theorem Sample.kept_crammed (count width : Nat) :
    StackMap.kept (marked count) (crammed count width) = .ok (rows count width) := by
  rw [StackMap.kept, placed_crammed]
  exact congrArg Except.ok (sorted_crammed count width)

theorem Sample.size_crammed (count width : Nat) :
    StackMap.size ((rows count width).map (StackMap.told (marked count))) =
      2 + count * (7 + width) := by
  have one (i : Nat) :
      7 + StackMap.typesSize (StackMap.told (marked count) (i, wide width i)).locals +
        StackMap.typesSize (StackMap.told (marked count) (i, wide width i)).stack = 7 + width := by
    rw [StackMap.told, StackMap.typesSize_told, StackMap.typesSize_told, wide, StackMap.typesSize,
      List.map_replicate, List.sum_replicate_nat]
    exact congrArg (7 + ·) (Nat.mul_one width)
  rw [StackMap.size, rows, List.map_map, List.map_map]
  simp only [Function.comp_def, one]
  rw [List.map_const', List.sum_replicate_nat, List.length_range]

/-- Nothing about such frames is interned. -/
theorem Sample.encodeFrame_wide (assembled : AssembledCode) (width delta i : Nat)
    (pool : ConstantPool) :
    ∃ bytes, StackMap.encodeFrame assembled delta (wide width i) pool = (.ok bytes, pool) := by
  have one : FrameType.encode assembled .int pool = (.ok [1], pool) := rfl
  have locals_ : StackMap.encodeTypes assembled (List.replicate width .int) pool = (.ok _, pool) :=
    Interning.bind_eq_ok.2 ⟨_, pool, Interning.mapM_replicate one width, rfl⟩
  exact ⟨_, Interning.bind_eq_ok.2 ⟨_, pool, locals_, rfl⟩⟩

theorem Sample.encodeFrom_wide (assembled : AssembledCode) (width : Nat) (pool : ConstantPool) :
    ∀ (offsets : List Nat) (next : Nat) (found : List Bytes), ∃ bytes,
      StackMap.encodeFrom assembled next found (offsets.map fun i => (i, wide width i)) pool =
        (.ok bytes, pool)
  | [], _, _ => ⟨_, rfl⟩
  | offset :: offsets, next, found => by
    obtain ⟨bytes, one⟩ := encodeFrame_wide assembled width (offset - next) offset pool
    obtain ⟨whole, others⟩ :=
      encodeFrom_wide assembled width pool offsets (offset + 1) (bytes :: found)
    exact ⟨whole, Interning.bind_eq_ok.2 ⟨bytes, pool, one, others⟩⟩

theorem Sample.encode_crammed {count : Nat} (filled : count ≠ 0) (width : Nat)
    (maxStack maxLocals : UInt16) {pool after : ConstantPool} {place : UInt16}
    (named : Interning.utf8 Attribute.stackMapTable pool = (.ok place, after)) :
    ∃ payload, (marked count).encode maxStack maxLocals [] (some (crammed count width)) [] pool =
      (.ok payload, after) := by
  obtain ⟨bytes, frames⟩ := encodeFrom_wide (marked count) width pool (List.range count) 0 []
  have placed : (ExceptT.mk (pure (StackMap.placed (marked count) (marked count).code.length
      (crammed count width))) : Interning _) pool = (.ok _, pool) :=
    congrArg (·, pool) (placed_crammed count width)
  have written : StackMap.encode (marked count) (crammed count width) pool =
      (.ok (some (Bytes.count count ++ bytes)), pool) := by
    have size : (rows count width).length = count := by
      rw [rows, List.length_map, List.length_range]
    have some_ : (rows count width).isEmpty = false := by
      rwa [List.isEmpty_eq_false_iff, ne_eq, ← List.length_eq_zero_iff, size]
    refine Interning.bind_eq_ok.2 ⟨_, pool, placed, ?_⟩
    simp only [sorted_crammed, some_, Bool.false_eq_true, if_false, size]
    exact Interning.bind_eq_ok.2 ⟨bytes, pool, frames, rfl⟩
  have stored : (marked count).stackMapTable (some (crammed count width)) pool =
      (.ok [(place, Bytes.count count ++ bytes)], after) :=
    Interning.bind_eq_ok.2 ⟨_, pool, written, Interning.bind_eq_ok.2 ⟨place, after, named, rfl⟩⟩
  exact ⟨_, Interning.bind_eq_ok.2 ⟨_, after, stored, rfl⟩⟩

/-- With too many and too wide frames the stack map gets longer than its length can say. -/
theorem Sample.unread_of_long {count width : Nat} (small : count ≤ 0xFFFF)
    (long : 2 ^ 32 ≤ 2 + count * (7 + width)) {maxStack maxLocals : UInt16}
    {pool after : ConstantPool} (sound : pool.Sound) {payload : Bytes}
    (done : (marked count).encode maxStack maxLocals [] (some (crammed count width)) [] pool =
      (.ok payload, after)) :
    CodeAttribute.read after.entries payload = .error (.invalidAttribute Attribute.code) := by
  obtain ⟨-, attributes, tables, rfl, carries, fills⟩ := (encode_leads (marked_short small).labels
    sound maxStack maxLocals [] (some (crammed count width)) []).of_eq_ok done
  obtain ⟨rows, chosen, tells⟩ := fills.frames
  have same := tells.size_eq
  rw [Option.getD_some, kept_crammed] at chosen
  cases chosen
  rw [size_crammed] at same
  obtain ⟨frames, lines, scopes, types, whole, first, second, third, fourth⟩ := carries.attributes
  have noLines : tables.lines = [] := List.forall₂_nil_right_iff.1 fills.lines
  have noScopes : tables.scopes = [] := List.forall₂_nil_right_iff.1 fills.scopes
  have noTypes : tables.types = [] := List.forall₂_nil_right_iff.1 fills.types
  rw [noLines] at second
  rw [noScopes] at third
  rw [noTypes] at fourth
  rw [second.eq_nil, third.eq_nil, fourth.eq_nil, List.append_nil, List.append_nil,
    List.append_nil] at whole
  generalize written : tables.frames.map StackMapEntry.write = rows at first
  cases first with
  | nothing =>
    rw [List.map_eq_nil_iff.1 written] at same
    rw [← same] at long
    exact absurd long (by decide)
  | table named _ =>
    refine CodeAttribute.read_overlong whole ((Entries.utf8_eq_ok _ _ _).2 named)
      (Nat.lt_of_le_of_lt (marked_short small).code (by decide)) (by decide : 0 < 0x10000) ?_
    rw [← written, List.length_append, Bytes.length_count, ← List.flatMap_def, same]
    exact long

/-- **Frames get lost without an error** when 65535 of them have 65535 locals each: the payload is
encoded, but it is not read. -/
theorem crammed_unread : (Sample.marked 0xFFFF).Short ∧
    (Sample.crammed 0xFFFF 0xFFFF).length ≤ 0xFFFF ∧
    (∀ frame ∈ Sample.crammed 0xFFFF 0xFFFF,
      frame.locals.length ≤ 0xFFFF ∧ frame.stack.length ≤ 0xFFFF) ∧
    ∃ payload after, (Sample.marked 0xFFFF).encode 0 0 [] (some (Sample.crammed 0xFFFF 0xFFFF)) []
      (ConstantPool.ofEntries #[]) = (.ok payload, after) ∧
      CodeAttribute.read after.entries payload = .error (.invalidAttribute Attribute.code) := by
  have named : Interning.utf8 Attribute.stackMapTable (ConstantPool.ofEntries #[]) =
      (.ok 1, (Interning.utf8 Attribute.stackMapTable (ConstantPool.ofEntries #[])).2) :=
    Prod.ext (by decide +kernel) rfl
  obtain ⟨payload, done⟩ :=
    Sample.encode_crammed (by decide : (0xFFFF : Nat) ≠ 0) 0xFFFF 0 0 named
  refine ⟨Sample.marked_short (Nat.le_refl _), ?_, fun frame among => ?_, payload, _, done,
    Sample.unread_of_long (Nat.le_refl _) (by decide) (ConstantPool.ofEntries_sound #[]) done⟩
  · rw [Sample.crammed, List.length_map, List.length_range]
  · obtain ⟨i, -, rfl⟩ := List.mem_map.1 among
    exact ⟨Nat.le_of_eq List.length_replicate, Nat.zero_le _⟩

end AssembledCode

end ClassWeave
