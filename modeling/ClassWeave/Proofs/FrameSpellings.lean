/-
# ClassWeave.Proofs.FrameSpellings -- every way to write a frame is understood

A class file has seven forms for the frame at an offset.  Most of them say what differs
from the locals of the frame before, and one frame can often be written in several ways.
`FrameSpelling` lists the forms with the frames and the bytes they are for, as the format
has them, and `FramesSpelled` puts such bytes one after the other, each for a frame at its
distance from the one before.  Which pool entry names a class is open as well.

Whatever the choices, the frames that are read are the ones that were written
(`StackMapEntry.expand_spelled`).
-/
import ClassWeave.Proofs.StackMapTable

set_option autoImplicit false

namespace ClassWeave

/-! ## What the format allows -/

/-- The bytes for the type of a slot.  An object is named by any entry for its class, and an object
under construction by the offset of its site. -/
inductive FrameType.Spelled (pool : Entries) : FrameType → Bytes → Prop
  | top : Spelled pool .top [0]
  | int : Spelled pool .int [1]
  | float : Spelled pool .float [2]
  | double : Spelled pool .double [3]
  | long : Spelled pool .long [4]
  | null : Spelled pool .null [5]
  | uninitializedThis : Spelled pool .uninitializedThis [6]
  | object {index : UInt16} {name : String} (named : pool.className? index = some name) :
      Spelled pool (.object name) (7 :: Bytes.u2 index)
  | uninitialized (offset : UInt16) :
      Spelled pool (.uninitialized ⟨offset.toNat⟩) (8 :: Bytes.u2 offset)

/-- The bytes for types one after the other. -/
def TypesSpelled (pool : Entries) (types : List FrameType) (bytes : Bytes) : Prop :=
  ∃ parts, List.Forall₂ (FrameType.Spelled pool) types parts ∧ bytes = parts.flatten

/-- The bytes for a frame with the given locals and stack, at a distance behind a frame with the
locals `before`.  The first byte tells the form, and the distance too if it is short. -/
inductive FrameSpelling (pool : Entries) (before : List FrameType) (delta : Nat) :
    List FrameType → List FrameType → Bytes → Prop
  | same (short : delta ≤ 63) : FrameSpelling pool before delta before [] [UInt8.ofNat delta]
  | sameOne {type : FrameType} {bytes : Bytes} (short : delta ≤ 63)
      (spelled : type.Spelled pool bytes) :
      FrameSpelling pool before delta before [type] (UInt8.ofNat (64 + delta) :: bytes)
  | sameOneExtended {type : FrameType} {bytes : Bytes} (fits : delta ≤ 0xFFFF)
      (spelled : type.Spelled pool bytes) :
      FrameSpelling pool before delta before [type]
        (247 :: (Bytes.u2 (UInt16.ofNat delta) ++ bytes))
  | chop {kept : List FrameType} (gone : List FrameType) (whole : before = kept ++ gone)
      (least : 1 ≤ gone.length) (few : gone.length ≤ 3) (fits : delta ≤ 0xFFFF) :
      FrameSpelling pool before delta kept []
        (UInt8.ofNat (251 - gone.length) :: Bytes.u2 (UInt16.ofNat delta))
  | sameExtended (fits : delta ≤ 0xFFFF) :
      FrameSpelling pool before delta before [] (251 :: Bytes.u2 (UInt16.ofNat delta))
  | append (more : List FrameType) {bytes : Bytes} (least : 1 ≤ more.length)
      (few : more.length ≤ 3) (fits : delta ≤ 0xFFFF) (spelled : TypesSpelled pool more bytes) :
      FrameSpelling pool before delta (before ++ more) []
        (UInt8.ofNat (251 + more.length) :: (Bytes.u2 (UInt16.ofNat delta) ++ bytes))
  | full {locals stack : List FrameType} {first second : Bytes} (fits : delta ≤ 0xFFFF)
      (locals_ : locals.length ≤ 0xFFFF) (stack_ : stack.length ≤ 0xFFFF)
      (spelled : TypesSpelled pool locals first) (spelled' : TypesSpelled pool stack second) :
      FrameSpelling pool before delta locals stack
        (255 :: (Bytes.u2 (UInt16.ofNat delta) ++ (Bytes.count locals.length ++ first)
          ++ (Bytes.count stack.length ++ second)))

/-- The bytes for frames one after the other.  The first can stand at `next` at the earliest, and has
its distance from there; each later one has it from the offset after the one before. -/
inductive FramesSpelled (pool : Entries) : Nat → List FrameType → List PinnedFrame → Bytes → Prop
  | nil (next : Nat) (before : List FrameType) : FramesSpelled pool next before [] []
  | cons {next : Nat} {before : List FrameType} {frame : PinnedFrame} {frames : List PinnedFrame}
      {bytes rest : Bytes} (later : next ≤ frame.label.id)
      (spelling : FrameSpelling pool before (frame.label.id - next) frame.locals frame.stack bytes)
      (spelled : FramesSpelled pool (frame.label.id + 1) frame.locals frames rest) :
      FramesSpelled pool next before (frame :: frames) (bytes ++ rest)

/-! ## What the reader makes of it -/

variable {pool : Entries}

theorem FrameType.Spelled.slot {type : FrameType} {bytes : Bytes}
    (spelled : type.Spelled pool bytes) :
    ∃ slot : SlotEntry, bytes = slot.write ∧ slot.resolve pool = .ok type := by
  cases spelled with
  | top => exact ⟨.top, rfl, rfl⟩
  | int => exact ⟨.int, rfl, rfl⟩
  | float => exact ⟨.float, rfl, rfl⟩
  | double => exact ⟨.double, rfl, rfl⟩
  | long => exact ⟨.long, rfl, rfl⟩
  | null => exact ⟨.null, rfl, rfl⟩
  | uninitializedThis => exact ⟨.uninitializedThis, rfl, rfl⟩
  | @object index name named =>
    refine ⟨.object index, rfl, ?_⟩
    exact Outcome.bind_eq_ok.2 ⟨name, (Entries.className_eq_ok _ _ _).2 named, rfl⟩
  | uninitialized offset => exact ⟨.uninitialized offset, rfl, rfl⟩

theorem TypesSpelled.slots {types : List FrameType} {bytes : Bytes}
    (spelled : TypesSpelled pool types bytes) :
    ∃ slots : List SlotEntry, slots.length = types.length ∧
      bytes = slots.flatMap SlotEntry.write ∧ slots.mapM (SlotEntry.resolve pool) = .ok types := by
  obtain ⟨parts, each, rfl⟩ := spelled
  have slots : ∃ slots : List SlotEntry, parts.flatten = slots.flatMap SlotEntry.write ∧
      List.Forall₂ (fun slot type => slot.resolve pool = .ok type) slots types := by
    induction each with
    | nil => exact ⟨[], rfl, .nil⟩
    | cons one _ ih =>
      obtain ⟨slot, rfl, own⟩ := one.slot
      obtain ⟨slots, same, others⟩ := ih
      exact ⟨slot :: slots, by rw [List.flatten_cons, same, List.flatMap_cons], .cons own others⟩
  obtain ⟨slots, same, resolved⟩ := slots
  exact ⟨slots, resolved.length_eq, same, Outcome.mapM_eq_ok.2 resolved⟩

namespace FrameSpelling

variable {before locals stack : List FrameType} {delta : Nat} {bytes : Bytes}

/-- What is read from the bytes of a frame tells its distance, and the frame itself to who knows the
locals before it. -/
theorem entry (spelling : FrameSpelling pool before delta locals stack bytes) :
    ∃ entry : StackMapEntry, (∀ origin, Reads StackMapEntry.read origin bytes entry) ∧
      entry.delta.toNat = delta ∧ entry.apply pool before = .ok (locals, stack) := by
  -- The tag is a byte computed from the distance; in each form it is in range, so nothing wraps.
  have tag {n : Nat} (small : n < 256) : (UInt8.ofNat n).toNat = n := UInt8.toNat_ofNat_of_lt' small
  have distance (fits : delta ≤ 0xFFFF) : (UInt16.ofNat delta).toNat = delta :=
    UInt16.toNat_ofNat_of_lt' (Nat.lt_succ_of_le fits)
  cases spelling with
  | same short =>
    have own := tag (n := delta) (by omega)
    have low : UInt8.ofNat delta ≤ 63 := UInt8.le_iff_toNat_le.2 (own.symm ▸ short)
    refine ⟨.same (UInt8.ofNat delta).toUInt16, fun origin => ?_, own, rfl⟩
    refine (Reads.u1 _ origin).bindNil ?_
    rw [if_pos low]
    exact .pure _ _
  | @sameOne type bytes short spelled =>
    obtain ⟨slot, rfl, resolved⟩ := spelled.slot
    have own := tag (n := 64 + delta) (by omega)
    have low : ¬ UInt8.ofNat (64 + delta) ≤ 63 := by
      simp only [UInt8.le_iff_toNat_le, own, UInt8.reduceToNat]
      omega
    have high : UInt8.ofNat (64 + delta) ≤ 127 := by
      simp only [UInt8.le_iff_toNat_le, own, UInt8.reduceToNat]
      omega
    have least : (64 : UInt8) ≤ UInt8.ofNat (64 + delta) := by
      simp only [UInt8.le_iff_toNat_le, own, UInt8.reduceToNat]
      omega
    refine ⟨.sameOne (UInt8.ofNat (64 + delta) - 64).toUInt16 slot, fun origin => ?_, ?_, ?_⟩
    · refine (Reads.u1 _ origin).bind ?_
      rw [if_neg low, if_pos high]
      exact (slot.reads_write _).map _
    · show (UInt8.ofNat (64 + delta) - 64).toNat = delta
      rw [UInt8.toNat_sub_of_le _ _ least, own]
      simp
    · exact Outcome.bind_eq_ok.2 ⟨type, resolved, rfl⟩
  | @sameOneExtended type bytes fits spelled =>
    obtain ⟨slot, rfl, resolved⟩ := spelled.slot
    refine ⟨.sameOneExtended (UInt16.ofNat delta) slot, fun origin => ?_, distance fits, ?_⟩
    · exact (Reads.u1 247 origin).bind ((Reads.u2 _ _).bind ((slot.reads_write _).map _))
    · exact Outcome.bind_eq_ok.2 ⟨type, resolved, rfl⟩
  | @chop kept gone whole least few fits =>
    have form (count : Nat) (least : 1 ≤ count) (few : count ≤ 3) (origin : Nat) :
        Reads StackMapEntry.read origin
          (UInt8.ofNat (251 - count) :: Bytes.u2 (UInt16.ofNat delta))
          (.chop (UInt16.ofNat delta) (UInt8.ofNat count)) := by
      obtain rfl | rfl | rfl : count = 1 ∨ count = 2 ∨ count = 3 := by omega
      all_goals exact (Reads.u1 _ origin).bind ((Reads.u2 _ _).bindNil (.pure _ _))
    refine ⟨_, form gone.length least few, distance fits, ?_⟩
    subst whole
    rw [StackMapEntry.apply, tag (by omega), List.length_append, Nat.add_sub_cancel, List.take_left]
  | sameExtended fits =>
    refine ⟨.sameExtended (UInt16.ofNat delta), fun origin => ?_, distance fits, rfl⟩
    exact (Reads.u1 251 origin).bind ((Reads.u2 _ _).bindNil (.pure _ _))
  | @append more bytes least few fits spelled =>
    obtain ⟨slots, size, rfl, resolved⟩ := spelled.slots
    have form (count : Nat) (least : 1 ≤ count) (few : count ≤ 3) (same : slots.length = count)
        (origin : Nat) : Reads StackMapEntry.read origin
          (UInt8.ofNat (251 + count) ::
            (Bytes.u2 (UInt16.ofNat delta) ++ slots.flatMap SlotEntry.write))
          (.append (UInt16.ofNat delta) slots) := by
      have types := Reads.times slots [] (origin + 1 + 2) fun slot _ => slot.reads_write
      rw [same] at types
      obtain rfl | rfl | rfl : count = 1 ∨ count = 2 ∨ count = 3 := by omega
      all_goals exact (Reads.u1 _ origin).bind ((Reads.u2 _ _).bind (types.map _))
    refine ⟨_, form more.length least few size, distance fits, ?_⟩
    exact Outcome.bind_eq_ok.2 ⟨more, resolved, rfl⟩
  | @full locals stack first second fits locals_ stack_ spelled spelled' =>
    obtain ⟨slots, size, rfl, resolved⟩ := spelled.slots
    obtain ⟨slots', size', rfl, resolved'⟩ := spelled'.slots
    rw [← size] at locals_ ⊢
    rw [← size'] at stack_ ⊢
    have countable : (StackMapEntry.full (UInt16.ofNat delta) slots slots').Fits :=
      ⟨Nat.lt_succ_of_le locals_, Nat.lt_succ_of_le stack_⟩
    refine ⟨_, StackMapEntry.reads_write countable, distance fits, ?_⟩
    · exact Outcome.bind_eq_ok.2 ⟨locals, resolved, Outcome.bind_eq_ok.2 ⟨stack, resolved', rfl⟩⟩

end FrameSpelling

/-- What is read from frames one after the other is an entry for each, and the entries tell the
frames to who knows the locals before the first. -/
theorem FramesSpelled.entries {next : Nat} {before : List FrameType} {frames : List PinnedFrame}
    {bytes : Bytes} (spelled : FramesSpelled pool next before frames bytes) :
    ∃ (table : List StackMapEntry) (parts : List Bytes), table.length = frames.length ∧
      bytes = parts.flatten ∧
      List.Forall₂ (fun entry bytes => ∀ origin, Reads StackMapEntry.read origin bytes entry)
        table parts ∧
      ∀ found, StackMapEntry.expandFrom pool next before found table =
        .ok (found.reverse ++ frames) := by
  induction spelled with
  | nil => exact ⟨[], [], rfl, rfl, .nil, fun found => by rw [List.append_nil]; rfl⟩
  | @cons next before frame frames bytes rest later spelling _ ih =>
    obtain ⟨entry, reads, distance, applied⟩ := spelling.entry
    obtain ⟨table, parts, size, rfl, each, others⟩ := ih
    refine ⟨entry :: table, bytes :: parts, by rw [List.length_cons, size, List.length_cons],
      rfl, .cons reads each, fun found => ?_⟩
    have place : next + entry.delta.toNat = frame.label.id := by omega
    rw [StackMapEntry.expandFrom, applied, place]
    refine (others (frame :: found)).trans ?_
    rw [List.reverse_cons, List.append_assoc]
    rfl

namespace StackMapEntry

/-- **However frames are written, they are read back.**  Each frame may have any of the forms that
can tell it after the frame before it; bytes behind the table are of no interest. -/
theorem expand_spelled {initial : List FrameType} {frames : List PinnedFrame} {bytes : Bytes}
    (few : frames.length ≤ 0xFFFF) (spelled : FramesSpelled pool 0 initial frames bytes)
    (rest : Bytes) :
    ∃ table, readTable.run (Bytes.count frames.length ++ bytes ++ rest) = .ok table ∧
      expand pool initial table = .ok frames := by
  obtain ⟨table, parts, size, rfl, each, expanded⟩ := spelled.entries
  rw [← size] at few ⊢
  exact ⟨table, (Reads.tableEach 0 (Nat.lt_succ_of_le few) each).run rest, expanded []⟩

/-- A pool with two entries for one class. -/
def Sample.doubled : Entries := #[.unusable, .utf8 "A", .class 1, .class 1]

/-- A frame for each form, after the locals of a method with an argument. -/
def Sample.varied : List PinnedFrame :=
  [⟨⟨3⟩, [.int], []⟩, ⟨⟨10⟩, [.int], [.float]⟩, ⟨⟨12⟩, [.int], [.uninitialized ⟨4⟩]⟩,
    ⟨⟨20⟩, [.int, .object "A", .long], []⟩, ⟨⟨21⟩, [.int, .object "A"], []⟩,
    ⟨⟨300⟩, [.int, .object "A"], []⟩, ⟨⟨301⟩, [.top, .object "A"], [.null, .uninitializedThis]⟩]

def Sample.forms : Bytes :=
  [3] ++ ([70, 2] ++ ([247, 0, 1, 8, 0, 4] ++ ([253, 0, 7, 7, 0, 2, 4] ++ ([250, 0, 0] ++
    ([251, 1, 22] ++ ([255, 0, 0, 0, 2, 0, 7, 0, 3, 0, 2, 5, 6] ++ []))))))

theorem expand_spelled_varied : Sample.varied.length ≤ 0xFFFF ∧
    FramesSpelled Sample.doubled 0 [.int] Sample.varied Sample.forms ∧
    ∃ table, readTable.run (Bytes.count Sample.varied.length ++ Sample.forms ++ []) = .ok table ∧
      expand Sample.doubled [.int] table = .ok Sample.varied := by
  have named : Sample.doubled.className? 2 = some "A" := by decide +kernel
  have named' : Sample.doubled.className? 3 = some "A" := by decide +kernel
  have spelled : FramesSpelled Sample.doubled 0 [.int] Sample.varied Sample.forms := by
    refine .cons (by decide) (.same (by decide)) ?_
    refine .cons (by decide) (.sameOne (by decide) .float) ?_
    refine .cons (by decide) (.sameOneExtended (by decide) (.uninitialized 4)) ?_
    refine .cons (by decide) (.append [.object "A", .long] (by decide) (by decide)
      (by decide) ⟨[_, _], .cons (.object named) (.cons .long .nil), rfl⟩) ?_
    refine .cons (by decide) (.chop [.long] rfl (by decide) (by decide) (by decide)) ?_
    refine .cons (by decide) (.sameExtended (by decide)) ?_
    refine .cons (by decide) (.full (by decide) (by decide) (by decide)
      ⟨[_, _], .cons .top (.cons (.object named') .nil), rfl⟩
      ⟨[_, _], .cons .null (.cons .uninitializedThis .nil), rfl⟩) ?_
    exact .nil _ _
  exact ⟨by decide, spelled, expand_spelled (by decide) spelled []⟩

end StackMapEntry

end ClassWeave
