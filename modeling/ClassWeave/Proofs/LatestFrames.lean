/-
# ClassWeave.Proofs.LatestFrames -- of the frames recorded for an offset, the last

Frames are recorded in any order, several for one offset and some for the end of the code.
What is read back from their table is one frame for every offset inside the code that has
any, the one that was recorded last (`StackMap.latest?`), and nothing else
(`StackMap.Latest`).

The written list is sorted and then thinned out.  Neither step touches what is last at an
offset, so both are followed offset by offset, through the rows that stand there.  The
distance written for a frame is a difference of two bytes; it is read back as the offset it
came from, so it was no less than nothing and no more than two bytes hold.
-/
import ClassWeave.Proofs.StackMapTable

set_option autoImplicit false

namespace ClassWeave

/-- Code as it comes from assembling: two bytes hold its length and the offset of every label. -/
structure AssembledCode.Short (assembled : AssembledCode) : Prop where
  code : assembled.code.length ≤ 0xFFFF
  labels : ∀ label offset, assembled.offsetOf label = .ok offset → offset ≤ 0xFFFF

theorem AssembledCode.Short.of_assemble {pool after : ConstantPool} (sound : pool.Sound)
    {nodes : List Node} {assembled : AssembledCode}
    (done : assemble nodes pool = (.ok assembled, after)) : assembled.Short := by
  obtain ⟨layout, _, assembles⟩ := assemble_eq_ok sound done
  exact ⟨assembles.size ▸ assembles.small, assembles.offset_small⟩

namespace StackMap

/-- Whether a frame is pinned to a label that stands at the offset. -/
def pinnedAt (assembled : AssembledCode) (offset : Nat) (frame : PinnedFrame) : Bool :=
  assembled.labels[frame.label]? == some offset

/-- The frame recorded last for an offset, if any was. -/
def latest? (assembled : AssembledCode) (frames : List PinnedFrame) (offset : Nat) :
    Option PinnedFrame :=
  (frames.filter (pinnedAt assembled offset)).getLast?

/-- The frames of `found` come at rising offsets, and at each offset there is just the frame
recorded last for it, its labels those of offsets.  No frame stands at the end of the code. -/
structure Latest (assembled : AssembledCode) (frames found : List PinnedFrame) : Prop where
  rising : found.Pairwise fun a b => a.label.id < b.label.id
  latest : ∀ offset, found.find? (fun frame => frame.label.id == offset) =
    if offset < assembled.code.length then
      (latest? assembled frames offset).map fun frame => told assembled (offset, frame)
    else none

variable {assembled : AssembledCode} {frames : List PinnedFrame} {rows : List (Nat × PinnedFrame)}

/-! ## The rows of one offset -/

theorem pinnedAt_iff {offset : Nat} {frame : PinnedFrame} :
    pinnedAt assembled offset frame = true ↔ assembled.offsetOf frame.label = .ok offset := by
  unfold pinnedAt AssembledCode.offsetOf AssembledCode.place
  cases assembled.labels[frame.label]? <;> simp

/-- Of sorted rows the last one of each offset is kept. -/
theorem filter_lastOfEach (offset : Nat) : ∀ {rows : List (Nat × PinnedFrame)},
    rows.Pairwise (fun a b => a.1 ≤ b.1) →
    (lastOfEach rows).filter (fun row => row.1 == offset) =
      (rows.filter fun row => row.1 == offset).getLast?.toList
  | [], _ => rfl
  | [a], _ => by
    show [a].filter (fun row => row.1 == offset) = _
    by_cases here : a.1 = offset <;> simp [here]
  | a :: b :: rest, sorted => by
    obtain ⟨first, others⟩ := List.pairwise_cons.1 sorted
    have ih := filter_lastOfEach offset others
    rw [lastOfEach]
    split
    · rename_i same
      rw [ih]
      by_cases here : b.1 = offset <;> simp [same, here]
    · rename_i apart
      by_cases here : a.1 = offset
      · -- Behind the last row of an offset every row has a greater one.
        have none_ : (b :: rest).filter (fun row => row.1 == offset) = [] := by
          rw [List.filter_eq_nil_iff]
          intro row among
          have low := first b List.mem_cons_self
          have next : b.1 ≤ row.1 := by
            rcases List.mem_cons.1 among with rfl | later
            · exact Nat.le_refl _
            · exact (List.pairwise_cons.1 others).1 row later
          simp only [beq_iff_eq]
          omega
        rw [none_] at ih
        rw [List.filter_cons_of_pos (by simpa using here), ih,
          List.filter_cons_of_pos (by simpa using here), none_]
        rfl
      · have past (others : List (Nat × PinnedFrame)) :
            (a :: others).filter (fun row => row.1 == offset) =
              others.filter fun row => row.1 == offset :=
          List.filter_cons_of_neg (by simpa using here)
        rw [past, past, ih]

/-- The placed rows of an offset are the frames pinned there, unless it is past the code. -/
theorem filter_placed {length : Nat} (chosen : placed assembled length frames = .ok rows)
    (offset : Nat) : rows.filter (fun row => row.1 == offset) =
      if offset < length then (frames.filter (pinnedAt assembled offset)).map (Prod.mk offset)
      else [] := by
  obtain ⟨all, found, same⟩ := Outcome.bind_eq_ok.1 chosen
  cases same
  have each := Outcome.mapM_eq_ok.1 found
  -- First without the bound: the rows and the frames are walked together.
  have here : all.filter (fun row => row.1 == offset) =
      (frames.filter (pinnedAt assembled offset)).map (Prod.mk offset) := by
    clear found chosen
    induction each with
    | nil => rfl
    | @cons frame row _ _ one _ ih =>
      obtain ⟨place, known, same⟩ := Outcome.bind_eq_ok.1 one
      cases same
      have pinned : pinnedAt assembled offset frame = (place == offset) := by
        rw [Bool.eq_iff_iff, pinnedAt_iff, known]
        simp
      rw [List.filter_cons, List.filter_cons, pinned, ih]
      by_cases at_ : place = offset <;> simp [at_]
  rw [List.filter_filter]
  split
  · rename_i inside
    rw [← here]
    refine List.filter_congr fun row _ => ?_
    by_cases at_ : row.1 = offset <;> simp [at_, inside]
  · rename_i outside
    rw [List.filter_eq_nil_iff]
    rintro row _ both
    simp only [Bool.and_eq_true, beq_iff_eq, decide_eq_true_eq] at both
    omega

/-- Of the frames that are written, the one at an offset is the last recorded for it. -/
theorem find?_kept (chosen : kept assembled frames = .ok rows) (offset : Nat) :
    rows.find? (fun row => row.1 == offset) =
      if offset < assembled.code.length then (latest? assembled frames offset).map (Prod.mk offset)
      else none := by
  obtain ⟨placed_, done, rfl⟩ := Outcome.map_eq_ok.1 chosen
  have sorted : (placed_.mergeSort fun a b => decide (a.1 ≤ b.1)).Pairwise
      fun a b => a.1 ≤ b.1 :=
    (List.pairwise_mergeSort offsets_trans offsets_total placed_).imp fun both => by simpa using both
  rw [← List.head?_filter, filter_lastOfEach offset sorted, filter_mergeSort,
    filter_placed done offset]
  split
  · rw [List.getLast?_map, latest?]
    cases (frames.filter (pinnedAt assembled offset)).getLast? <;> rfl
  · rfl

theorem kept_latest (chosen : kept assembled frames = .ok rows) :
    Latest assembled frames (rows.map (told assembled)) where
  rising := List.pairwise_map.2 (kept_rising chosen).1
  latest := by
    intro offset
    have same : (fun frame : PinnedFrame => frame.label.id == offset) ∘ told assembled =
        fun row => row.1 == offset := rfl
    rw [List.find?_map, same, find?_kept chosen]
    split
    · rw [Option.map_map]
      rfl
    · rfl

/-! ## The distances between frames -/

/-- How far each offset is behind the one after the offset before it. -/
def distances : Int → List Nat → List Int
  | _, [] => []
  | next, offset :: rest => (offset - next) :: distances (offset + 1) rest

/-- The distances that entries have are those of their frames, none of them cut off. -/
theorem Tells.distances_eq {entries : Entries} {next : Nat} {table : List StackMapEntry}
    (tells : Tells assembled entries next rows table) (rising : rows.Pairwise fun a b => a.1 < b.1)
    (bounds : ∀ row ∈ rows, next ≤ row.1 ∧ row.1 ≤ 0xFFFF) :
    table.map (fun entry => (entry.delta.toNat : Int)) = distances next (rows.map Prod.fst) := by
  induction tells with
  | nil => rfl
  | @cons next offset frame rows _ _ more _ _ _ ih =>
    obtain ⟨first, others⟩ := List.pairwise_cons.1 rising
    obtain ⟨low, high⟩ := bounds _ List.mem_cons_self
    simp only at low high
    have own : ((UInt16.ofNat (offset - next)).toNat : Int) = offset - next := by
      simp only [UInt16.toNat_ofNat']
      omega
    have rest := ih others fun row among => by
      have beyond := first row among
      have within := bounds row (List.mem_cons_of_mem _ among)
      simp only at beyond
      omega
    rw [List.map_cons, rest]
    exact congrArg (· :: distances (offset + 1 : Nat) (rows.map Prod.fst)) own

/-! ## Whole tables -/

/-- **The table of frames tells the last frame of every offset, and nothing else.**  Without a frame
inside the code there is no table.  Every distance that is written is the one between its frames. -/
theorem encode_latest {table : Entries} {pool after : ConstantPool}
    (grown : (ConstantPool.ofEntries table).Grown pool) (short : assembled.Short)
    (countable : ∀ frame ∈ frames, frame.locals.length ≤ 0xFFFF ∧ frame.stack.length ≤ 0xFFFF)
    {payload? : Option Bytes} (done : encode assembled frames pool = (.ok payload?, after)) :
    ∃ entries found, payload?.elim (.ok []) StackMapEntry.readTable.run = .ok entries ∧
      (∀ initial, StackMapEntry.expand after.entries initial entries = .ok found) ∧
      Latest assembled frames found ∧
      entries.map (fun entry => (entry.delta.toNat : Int)) =
        distances 0 (found.map fun frame => frame.label.id) := by
  have sound := grown.sound (ConstantPool.ofEntries_sound table)
  obtain ⟨-, rows, entries, chosen, tells, same⟩ :=
    (encode_leads sound short.labels frames).of_eq_ok done
  obtain ⟨rising, inside⟩ := kept_rising chosen
  have small : ∀ row ∈ rows, row.1 < 0xFFFF := fun row among =>
    Nat.lt_of_lt_of_le (inside row among) short.code
  have bounds : ∀ row ∈ rows, 0 ≤ row.1 ∧ row.1 ≤ 0xFFFF := fun row among =>
    ⟨Nat.zero_le _, Nat.le_of_lt (small row among)⟩
  refine ⟨entries, rows.map (told assembled), ?_,
    fun initial => tells.expand initial [] rising bounds, kept_latest chosen, ?_⟩
  · subst same
    split
    · rename_i empty
      rw [List.isEmpty_iff.1 empty]
      rfl
    · refine (tells.read_iff rising small).2 fun row among => ?_
      have few := countable row.2 (mem_of_kept chosen row among)
      omega
  · rw [tells.distances_eq rising bounds, List.map_map]
    rfl

/-- Code with two labels at one offset and one at its end. -/
def Sample.labelled : List Node :=
  [.label ⟨7⟩, .insn (.type Opcode.new "demo/A"), .label ⟨3⟩, .label ⟨9⟩, .insn (.simple Opcode.pop),
    .insn (.simple Opcode.voidReturn), .label ⟨5⟩]

/-- Frames for it, neither sorted nor each for an offset of its own. -/
def Sample.scattered : List PinnedFrame :=
  [⟨⟨3⟩, [.int], [.null]⟩, ⟨⟨7⟩, [.object "demo/C", .long], []⟩, ⟨⟨5⟩, [.top], []⟩,
    ⟨⟨9⟩, [.object "demo/C"], [.uninitialized ⟨7⟩]⟩]

theorem encode_latest_scattered : ∃ assembled pool payload? after,
    assemble Sample.labelled (ConstantPool.ofEntries #[]) = (.ok assembled, pool) ∧
    assembled.Short ∧
    (∀ frame ∈ Sample.scattered, frame.locals.length ≤ 0xFFFF ∧ frame.stack.length ≤ 0xFFFF) ∧
    encode assembled Sample.scattered pool = (.ok payload?, after) ∧
    ∃ entries found, payload?.elim (.ok []) StackMapEntry.readTable.run = .ok entries ∧
      (∀ initial, StackMapEntry.expand after.entries initial entries = .ok found) ∧
      Latest assembled Sample.scattered found ∧
      entries.map (fun entry => (entry.delta.toNat : Int)) =
        distances 0 (found.map fun frame => frame.label.id) := by
  have runs : ((do encode (← assemble Sample.labelled) Sample.scattered)
      (ConstantPool.ofEntries #[])).1.toBool = true := by
    simp only [encode_by_insertion]
    decide +kernel
  rcases whole : (do encode (← assemble Sample.labelled) Sample.scattered)
    (ConstantPool.ofEntries #[]) with ⟨cause | payload?, after⟩
  · rw [whole] at runs
    cases runs
  · obtain ⟨assembled, pool, assembles, done⟩ := Interning.bind_eq_ok.1 whole
    have sound := ConstantPool.ofEntries_sound #[]
    have grown := (assemble_grows Sample.labelled).grown sound assembles
    have short := AssembledCode.Short.of_assemble sound assembles
    have countable : ∀ frame ∈ Sample.scattered,
        frame.locals.length ≤ 0xFFFF ∧ frame.stack.length ≤ 0xFFFF := by decide
    exact ⟨assembled, pool, payload?, after, assembles, short, countable, done,
      encode_latest grown short countable done⟩

end StackMap

end ClassWeave
