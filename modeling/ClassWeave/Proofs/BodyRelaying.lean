/-
# ClassWeave.Proofs.BodyRelaying -- a body told, collected and encoded again

Even if nothing is injected, the code of a method moves: instructions get their shortest
form and switches another filling.  `AssembledCode.moved` takes the offset of an instruction,
or of the end, to the new one.  It is strictly increasing (`Layout.Assembles.relays`), and
there are no other labels, so all that is told by labels moves with it: the targets of
branches, the ranges of handlers, lines, and frames with the objects under construction in
them.

`ClassFile.method_relaid` puts this together: the new code says what the old code said, at the
new offsets.  Only handlers without a range are lost, and the lines and frames that stand at
no instruction.  A stack map can outgrow the four bytes of its length on the way, as frames of
one byte are encoded in full; then the new payload is not read.
-/
import ClassWeave.Proofs.BodyCollecting
import ClassWeave.Proofs.CodeTables
import ClassWeave.Proofs.FrameSpellings
import ClassWeave.Proofs.Landing
import ClassWeave.Proofs.PayloadReading
import Mathlib.Order.Monotone.Basic
import Mathlib.Order.Nat

set_option autoImplicit false

namespace ClassWeave

/-! ## Where the instructions go -/

/-- The offsets at which instructions begin, and that of the end. -/
def CodeAttribute.boundaries (items : List (Nat × Instruction)) (length : Nat) : List Nat :=
  items.map Prod.fst ++ [length]

theorem Decode.Rising.boundaries {entries : Entries} {length start : Nat}
    {items : List (Nat × Instruction)} (rising : Decode.Rising entries length start items) :
    (CodeAttribute.boundaries items length).Pairwise (· < ·) := by
  refine List.pairwise_append.2 ⟨List.pairwise_map.2 rising.rising, List.pairwise_singleton _ _, ?_⟩
  rintro _ among
  obtain ⟨item, among', rfl⟩ := List.mem_map.1 among
  exact List.forall_mem_singleton.2 (rising.inside item among')

namespace AssembledCode

open CodeAttribute

/-- Where the label of an offset has gone. -/
def moved (assembled : AssembledCode) (offset : Nat) : Nat := assembled.offset ⟨offset⟩

/-- Every instruction, and the end, has a new offset; they have kept their order. -/
structure Relays (assembled : AssembledCode) (items : List (Nat × Instruction)) (length : Nat)
    (layout : Layout) : Prop where
  placed : ∀ label, assembled.Places label ↔ label.id ∈ boundaries items length
  offsets : (boundaries items length).map assembled.moved =
    layout.offsets ++ [assembled.code.length]
  strictMonoOn : StrictMonoOn assembled.moved {offset | offset ∈ boundaries items length}

end AssembledCode

section Layout

open CodeAttribute

variable {old first entries : Entries} {rows : List LineEntry} {items : List (Nat × Instruction)}
  {length : Nat} {layout : Layout} {assembled : AssembledCode}

/-- A label that is told once has the offset of the instruction behind it, or of the end. -/
theorem Layout.Assembles.boundary
    (assembles : layout.Assembles first entries (toldNodes rows items length) assembled)
    (rising : Decode.Rising old length 0 items) {i offset : Nat}
    (at_ : (boundaries items length)[i]? = some offset) :
    assembled.offsetOf ⟨offset⟩ = .ok (assembled.moved offset) ∧
      (layout.offsets ++ [assembled.code.length])[i]? = some (assembled.moved offset) := by
  -- The label counts where it is told last, and what counts there is how many instructions came.
  suffices ∃ early late, toldNodes rows items length = early ++ .label ⟨offset⟩ :: late ∧
      .label ⟨offset⟩ ∉ late ∧ (Snippet.instructions early).length = i by
    obtain ⟨early, late, split, last, rfl⟩ := this
    rw [split] at assembles
    obtain ⟨place, known, found⟩ := assembles.offset_of_label last
    obtain rfl : assembled.moved offset = place := AssembledCode.offset_eq known
    exact ⟨known, found⟩
  rcases Nat.lt_or_ge i items.length with within | beyond
  · obtain ⟨early, item, late, rfl, rfl⟩ : ∃ early item late,
        items = early ++ item :: late ∧ early.length = i :=
      ⟨items.take i, items[i], items.drop (i + 1), by simp, by simp [Nat.le_of_lt within]⟩
    have same : item.1 = offset := by simpa [boundaries] using at_
    subst same
    -- The labels told behind this one have greater offsets, so none of them is this one again.
    have behind := rising.boundaries
    rw [boundaries, List.map_append, List.map_cons, List.append_assoc] at behind
    have apart := (List.pairwise_cons.1 (List.pairwise_append.1 behind).2.1).1
    refine ⟨early.flatMap (lineNodes rows), (lineNodes rows item).tail ++
      toldNodes rows late length, by simp [toldNodes, lineNodes], fun among => ?_,
      by rw [instructions_flatMap, List.length_map]⟩
    rcases List.mem_append.1 among with own | later
    · simp [lineNodes] at own
    · exact Nat.lt_irrefl _ (apart _ ((label_mem_toldNodes rows late length).1 later))
  · obtain rfl : items.length = i := by
      have := (List.getElem?_eq_some_iff.1 at_).1
      simp only [boundaries, List.length_append, List.length_map, List.length_singleton] at this
      omega
    have same : length = offset := by simpa [boundaries] using at_
    subst same
    exact ⟨items.flatMap (lineNodes rows), [], rfl, List.not_mem_nil,
      by rw [instructions_flatMap, List.length_map]⟩

theorem Layout.Assembles.relays
    (assembles : layout.Assembles first entries (toldNodes rows items length) assembled)
    (rising : Decode.Rising old length 0 items) : assembled.Relays items length layout := by
  have offsets : (boundaries items length).map assembled.moved =
      layout.offsets ++ [assembled.code.length] := by
    -- Told boundaries and laid offsets are compared place by place; beyond the code both lists end.
    refine List.ext_getElem? fun i => ?_
    rw [List.getElem?_map]
    cases at_ : (boundaries items length)[i]? with
    | some offset => exact (assembles.boundary rising at_).2.symm
    | none =>
      have count : layout.offsets.length = items.length := by
        have same := assembles.spells.length_eq
        rw [instructions_toldNodes, List.length_map] at same
        rw [offsets, List.length_map, same]
      have beyond := List.getElem?_eq_none_iff.1 at_
      refine (List.getElem?_eq_none ?_).symm
      simp only [boundaries, List.length_append, List.length_map, List.length_singleton] at beyond ⊢
      omega
  refine ⟨fun label => ⟨?_, fun among => ?_⟩, offsets, ?_⟩
  · rintro ⟨place, known⟩
    have placed := assembles.offsetOf_eq_ok.1 known
    rcases assembles.lays.label_placed (by rw [placed]; rfl) with told | nowhere
    · exact (label_mem_toldNodes rows items length).1 told
    · simp [Layout.empty] at nowhere
  · obtain ⟨i, at_⟩ := List.mem_iff_getElem?.1 among
    exact ⟨_, (assembles.boundary rising at_).1⟩
  · -- Both the old offsets and the new ones rise along the boundaries.
    intro a first b second before
    have rises : (boundaries items length).Pairwise fun a b => assembled.moved a < assembled.moved b := by
      rw [← List.pairwise_map, offsets]
      exact assembles.rising
    rcases trichotomy_of_pairwise (rising.boundaries.and rises) first second with
      rfl | forward | backward
    · exact absurd before (Nat.lt_irrefl _)
    · exact forward.2
    · exact absurd before (Nat.lt_asymm backward.1)

end Layout

namespace AssembledCode

open CodeAttribute

namespace Relays

variable {assembled : AssembledCode} {items : List (Nat × Instruction)} {length : Nat}
  {layout : Layout}

theorem moved_length (relays : assembled.Relays items length layout) :
    assembled.moved length = assembled.code.length := by
  have last := congrArg List.getLast? relays.offsets
  simpa [boundaries] using last

/-- An instruction lies before the end. -/
theorem moved_lt (relays : assembled.Relays items length layout)
    (below : ∀ item ∈ items, item.1 < length) {item : Nat × Instruction} (among : item ∈ items) :
    assembled.moved item.1 < assembled.code.length := by
  rw [← relays.moved_length]
  have start : item.1 ∈ boundaries items length :=
    List.mem_append_left _ (List.mem_map_of_mem among)
  have stop : length ∈ boundaries items length := List.mem_append_right _ List.mem_cons_self
  exact relays.strictMonoOn start stop (below item among)

/-- The label of a place in the code stays inside. -/
theorem inside (relays : assembled.Relays items length layout)
    (below : ∀ item ∈ items, item.1 < length) {label : Label} (within : label.id < length) :
    Inside assembled.labels assembled.code.length label := by
  intro place known
  have offset : assembled.offsetOf label = .ok place := by
    rw [offsetOf, AssembledCode.place, known]
  rcases List.mem_append.1 ((relays.placed label).1 ⟨place, offset⟩) with start | stop
  · obtain ⟨item, among, same⟩ := List.mem_map.1 start
    obtain rfl : assembled.moved label.id = place := offset_eq offset
    rw [← same]
    exact relays.moved_lt below among
  · exact absurd within (Nat.not_lt.2 (Nat.le_of_eq (List.mem_singleton.1 stop).symm))

end Relays

end AssembledCode

/-! ## Whole frames -/

namespace CodeAttribute

variable {code : CodeAttribute} {entries : Entries} {className methodName descriptor : String}
  {isStatic : Bool} {frames : List PinnedFrame}

/-- The frames of code come from its stack map, if that has any entry. -/
theorem frames_eq_ok :
    code.frames entries className methodName descriptor isStatic = .ok frames ↔
      ∃ table, code.stackMap = .ok table ∧ if table = [] then frames = []
        else ∃ initial, Frame.initial className methodName descriptor isStatic = .ok initial ∧
          StackMapEntry.expand entries (compactLocals initial.locals) table = .ok frames := by
  refine Outcome.bind_eq_ok.trans (exists_congr fun table => and_congr_right fun _ => ?_)
  cases table with
  | nil => exact ⟨fun same => (Except.ok.inj same).symm, fun same => by rw [same]; rfl⟩
  | cons entry table =>
    rw [if_neg (List.cons_ne_nil _ _)]
    cases Frame.initial className methodName descriptor isStatic with
    | error cause =>
      refine iff_of_false (fun same => by cases same) ?_
      rintro ⟨_, same, _⟩
      cases same
    | ok initial =>
      show StackMapEntry.expand entries (compactLocals initial.locals) (entry :: table) = _ ↔ _
      simp

theorem stackMap_fits {table : List StackMapEntry} (found : code.stackMap = .ok table) :
    ∀ entry ∈ table, entry.isFull = true → entry.Fits := by
  unfold stackMap at found
  split at found
  · exact ((Yields.table StackMapEntry.read_fits).run found).2
  · cases found
    exact List.forall_mem_nil _

theorem frames_rising
    (known : code.frames entries className methodName descriptor isStatic = .ok frames) :
    frames.Pairwise (fun a b => a.label.id < b.label.id) ∧
      ∀ frame ∈ frames, frame.stack.length < 0x10000 := by
  obtain ⟨table, found, rest⟩ := frames_eq_ok.1 known
  split at rest
  · subst rest
    exact ⟨.nil, List.forall_mem_nil _⟩
  · obtain ⟨_, _, expanded⟩ := rest
    obtain ⟨more, rfl, rising, beyond⟩ :=
      StackMapEntry.expandFrom_rising (stackMap_fits found) expanded
    exact ⟨rising, fun frame among => (beyond frame among).2⟩

end CodeAttribute

/-! ## The tables at their new offsets -/

/-- The row of a handler at new offsets, for the class it was for. -/
structure HandlerEntry.Relaid (old new : Entries) (moved : Nat → Nat)
    (before after : HandlerEntry) : Prop where
  start : after.start.toNat = moved before.start.toNat
  stop : after.stop.toNat = moved before.stop.toNat
  handler : after.handler.toNat = moved before.handler.toNat
  caught : after.caught? new = before.caught? old

/-- The row of a line at its new offset. -/
structure LineEntry.Relaid (moved : Nat → Nat) (before after : LineEntry) : Prop where
  start : after.start.toNat = moved before.start.toNat
  number : after.number = before.number

/-- A frame at its new offset, with the labels in it. -/
def PinnedFrame.relaid (moved : Nat → Nat) (frame : PinnedFrame) : PinnedFrame :=
  let rename (label : Label) : Label := ⟨moved label.id⟩
  ⟨rename frame.label, frame.locals.map (FrameType.relabel rename),
    frame.stack.map (FrameType.relabel rename)⟩

namespace CodeAttribute

/-- The lines that stand at instructions, in the order of their offsets. -/
def linesAt (items : List (Nat × Instruction)) (rows : List LineEntry) : List LineEntry :=
  (rows.filter fun row => decide (row.start.toNat ∈ items.map Prod.fst)).mergeSort
    fun a b => decide (a.start.toNat ≤ b.start.toNat)

/-- The frames that hold at instructions. -/
def framesAt (items : List (Nat × Instruction)) (frames : List PinnedFrame) : List PinnedFrame :=
  frames.filter fun frame => decide (frame.label.id ∈ items.map Prod.fst)

variable {items : List (Nat × Instruction)}

/-- Lines are told with their instructions, which puts them in order. -/
theorem lines_toldNodes (rising : (items.map Prod.fst).Pairwise (· < ·)) (rows : List LineEntry)
    (length : Nat) : (toldNodes rows items length).filterMap Node.line? =
      (linesAt items rows).map fun row => (⟨row.start.toNat⟩, row.number) := by
  have one (item : Nat × Instruction) : (lineNodes rows item).filterMap Node.line? =
      (rows.filter fun row => row.start.toNat == item.1).map
        fun row => (⟨row.start.toNat⟩, row.number) := by
    rw [lineNodes, List.cons_append, List.filterMap_cons_none rfl, List.filterMap_append,
      List.filterMap_map]
    refine (List.append_nil _).trans ((congrFun List.filterMap_eq_map _).trans ?_)
    refine List.map_congr_left fun row among => ?_
    rw [beq_iff_eq.1 (List.mem_filter.1 among).2]
  have sorted := Sorting.flatMap_filter (fun row : LineEntry => row.start.toNat) rising rows
  rw [List.flatMap_map] at sorted
  rw [linesAt, ← sorted, toldNodes, List.filterMap_append, List.filterMap_flatMap, List.map_flatMap]
  exact (List.append_nil _).trans (List.flatMap_congr fun item _ => one item)

/-- Frames that come at rising offsets are told with their instructions. -/
theorem filterMap_frameAt? (rising : (items.map Prod.fst).Pairwise (· < ·))
    {frames : List PinnedFrame} (rising' : frames.Pairwise fun a b => a.label.id < b.label.id) :
    items.filterMap (frameAt? frames) = framesAt items frames := by
  have one (item : Nat × Instruction) : (frameAt? frames item).toList =
      frames.filter fun frame => frame.label.id == item.1 := by
    have own : ∀ frame ∈ frames.filter fun frame => frame.label.id == item.1,
        frame.label.id = item.1 := fun frame among => beq_iff_eq.1 (List.mem_filter.1 among).2
    have rising'' := rising'.filter fun frame => frame.label.id == item.1
    rw [frameAt?]
    generalize frames.filter (fun frame => frame.label.id == item.1) = found at own rising''
    rcases found with _ | ⟨a, _ | ⟨b, rest⟩⟩
    · rfl
    · rfl
    · have first := own a (by simp)
      have second := own b (by simp)
      have less := (List.pairwise_cons.1 rising'').1 b List.mem_cons_self
      omega
  have sorted := Sorting.flatMap_filter (fun frame : PinnedFrame => frame.label.id) rising frames
  rw [List.flatMap_map, List.mergeSort_of_pairwise] at sorted
  · rw [List.filterMap_eq_flatMap_toList, framesAt, ← sorted]
    exact List.flatMap_congr fun item _ => one item
  · exact (rising'.filter _).imp fun less => decide_eq_true (Nat.le_of_lt less)

end CodeAttribute

namespace AssembledCode.Relays

open CodeAttribute

variable {assembled : AssembledCode} {items : List (Nat × Instruction)} {length : Nat}
  {layout : Layout}

/-- Blocks with a range are those of rows with a range, and their rows have it. -/
theorem handlers (relays : assembled.Relays items length layout) {old : Entries}
    {pool : ConstantPool} (slotted : pool.entries.Slotted) {rows rows' : List HandlerEntry}
    {blocks : List TryBlock} (tells : List.Forall₂ (TellsBlock old length) rows blocks)
    (placed : ∀ block ∈ blocks, assembled.Places block.start ∧ assembled.Places block.stop)
    (stands : List.Forall₂ (HandlerEntry.StandsFor assembled pool) rows'
      (blocks.filter assembled.isFilled)) :
    List.Forall₂ (HandlerEntry.Relaid old pool.entries assembled.moved)
      (rows.filter fun row => row.start < row.stop) rows' := by
  have filled (row : HandlerEntry) (block : TryBlock) (among : block ∈ blocks)
      (tells : TellsBlock old length row block) :
      decide (row.start < row.stop) = assembled.isFilled block := by
    obtain ⟨start, stop⟩ := placed block among
    rw [relays.placed, tells.start] at start
    rw [relays.placed, tells.stop] at stop
    rw [isFilled, tells.start, tells.stop, decide_eq_decide, UInt16.lt_iff_toNat_lt]
    exact (relays.strictMonoOn.lt_iff_lt start stop).symm
  refine Outcome.forall₂_through (Outcome.forall₂_filter tells filled) stands.flip ?_
  intro row block row' tells stands
  refine ⟨?_, ?_, ?_, ?_⟩
  · rw [← offset_eq stands.start, tells.start]
    rfl
  · rw [← offset_eq stands.stop, tells.stop]
    rfl
  · rw [← offset_eq stands.handler, tells.handler]
    rfl
  · rw [tells.caught, stands.catches.caught? slotted]

/-- Lines at instructions, in the order of their offsets. -/
theorem lines (relays : assembled.Relays items length layout)
    (below : ∀ item ∈ items, item.1 < length) {rows rows' : List LineEntry}
    (told : assembled.lines = (linesAt items rows).map fun row => (⟨row.start.toNat⟩, row.number))
    (stands : List.Forall₂ (LineEntry.StandsFor assembled) rows'
      (assembled.lines.filter assembled.isInside)) :
    List.Forall₂ (LineEntry.Relaid assembled.moved) (linesAt items rows) rows' := by
  have all : assembled.lines.filter assembled.isInside = assembled.lines := by
    refine List.filter_eq_self.2 fun line among => ?_
    rw [told] at among
    obtain ⟨row, within, rfl⟩ := List.mem_map.1 among
    obtain ⟨_, known⟩ := List.mem_filter.1 (List.mem_mergeSort.1 within)
    obtain ⟨item, among, same⟩ := List.mem_map.1 (of_decide_eq_true known)
    rw [isInside, decide_eq_true_eq, ← same]
    exact relays.moved_lt below among
  rw [all, told, List.forall₂_map_right_iff] at stands
  refine stands.flip.imp fun row row' stands => ⟨?_, stands.number⟩
  rw [← offset_eq stands.start]
  rfl

/-- Frames at rising offsets are all kept, since the new offsets rise as well. -/
theorem kept (relays : assembled.Relays items length layout)
    (below : ∀ item ∈ items, item.1 < length) {frames : List PinnedFrame}
    (rising : frames.Pairwise fun a b => a.label.id < b.label.id) :
    StackMap.kept assembled (framesAt items frames) =
      .ok ((framesAt items frames).map fun frame => (assembled.moved frame.label.id, frame)) := by
  let rows := (framesAt items frames).map fun frame => (assembled.moved frame.label.id, frame)
  have starts {frame : PinnedFrame} (among : frame ∈ framesAt items frames) :
      frame.label.id ∈ items.map Prod.fst := of_decide_eq_true (List.mem_filter.1 among).2
  have bounds {frame : PinnedFrame} (among : frame ∈ framesAt items frames) :
      frame.label.id ∈ boundaries items length := List.mem_append_left _ (starts among)
  have found : (framesAt items frames).mapM (fun frame => do
      return (← assembled.offsetOf frame.label, frame)) = .ok rows := by
    refine Outcome.mapM_eq_ok.2 (List.forall₂_map_right_iff.2 (List.forall₂_same.2 ?_))
    intro frame among
    rw [((relays.placed frame.label).2 (bounds among)).offsetOf_eq]
    rfl
  -- Each of them belongs to an instruction, so the new code does not end before its place.
  have inside : rows.filter (fun row => decide (row.1 < assembled.code.length)) = rows := by
    refine List.filter_eq_self.2 fun row among => ?_
    obtain ⟨frame, within, rfl⟩ := List.mem_map.1 among
    obtain ⟨item, own, same⟩ := List.mem_map.1 (starts within)
    exact decide_eq_true (same ▸ relays.moved_lt below own)
  have rising' : rows.Pairwise fun a b => a.1 < b.1 := by
    refine List.pairwise_map.2 ((rising.filter _).imp_of_mem fun first second less => ?_)
    exact relays.strictMonoOn (bounds first) (bounds second) less
  have placed : StackMap.placed assembled assembled.code.length (framesAt items frames) =
      .ok rows := by
    rw [StackMap.placed, found]
    exact congrArg Except.ok inside
  rw [StackMap.kept, placed]
  show Except.ok (StackMap.lastOfEach (rows.mergeSort _)) = Except.ok rows
  rw [List.mergeSort_of_pairwise (rising'.imp fun less => decide_eq_true (Nat.le_of_lt less)),
    StackMap.lastOfEach_of_rising rising']

/-- The stack map that has the frames is expanded to them, since the frame on entry is known if there
is any frame at all. -/
theorem frames (relays : assembled.Relays items length layout)
    (below : ∀ item ∈ items, item.1 < length) {code relaid : CodeAttribute} {old new : Entries}
    {className methodName descriptor : String} {isStatic : Bool} {frames : List PinnedFrame}
    (known : code.frames old className methodName descriptor isStatic = .ok frames)
    {rows : List (Nat × PinnedFrame)} {table : List StackMapEntry}
    (chosen : StackMap.kept assembled (framesAt items frames) = .ok rows)
    (tells : StackMap.Tells assembled new 0 rows table) (stackMap : relaid.stackMap = .ok table)
    (small : assembled.code.length ≤ 0xFFFF) :
    relaid.frames new className methodName descriptor isStatic =
      .ok ((framesAt items frames).map (PinnedFrame.relaid assembled.moved)) := by
  obtain ⟨rising, inside⟩ := StackMap.kept_rising chosen
  have same := Except.ok.inj ((relays.kept below (frames_rising known).1).symm.trans chosen)
  have told : (framesAt items frames).map (PinnedFrame.relaid assembled.moved) =
      rows.map (StackMap.told assembled) := by
    rw [← same, List.map_map]
    rfl
  refine frames_eq_ok.2 ⟨table, stackMap, ?_⟩
  rw [told]
  split
  · rename_i none_
    have count := tells.length_eq
    rw [none_] at count
    exact List.map_eq_nil_iff.2 (List.length_eq_zero_iff.1 count.symm)
  · rename_i some_
    obtain ⟨original, _, expanded⟩ := frames_eq_ok.1 known
    split at expanded
    · subst expanded
      have count := tells.length_eq
      rw [← same] at count
      exact absurd (List.length_eq_zero_iff.1 count) some_
    · obtain ⟨initial, first, _⟩ := expanded
      refine ⟨initial, first, tells.expand _ [] rising fun row among => ?_⟩
      exact ⟨Nat.zero_le _, Nat.le_trans (Nat.le_of_lt (inside row among)) small⟩

end AssembledCode.Relays

/-- The instructions that were told are read back at their new offsets. -/
theorem Layout.Assembles.decodes_told {old first entries : Entries} {rows : List LineEntry}
    {items : List (Nat × Instruction)} {length : Nat} {layout : Layout} {assembled : AssembledCode}
    (assembles : layout.Assembles first entries (CodeAttribute.toldNodes rows items length) assembled)
    (rising : Decode.Rising old length 0 items) (known : old.Extends first) :
    ∃ found, decode entries assembled.code = .ok found ∧
      found.map (fun item => (item.1, item.2.normal)) = items.map fun item =>
        (assembled.moved item.1, item.2.canonical.relabel fun label => ⟨assembled.moved label.id⟩) := by
  have relays := assembles.relays rising
  have own {insn : Instruction}
      (among : insn ∈ Snippet.instructions (CodeAttribute.toldNodes rows items length)) :
      ∃ item ∈ items, item.2.normal = insn := by
    rwa [CodeAttribute.instructions_toldNodes, List.mem_map] at among
  obtain ⟨found, read, offsets, insns⟩ := assembles.decodes
    (fun insn among => by
      obtain ⟨item, told, rfl⟩ := own among
      exact ((rising.decoded item told).wellFormed.extends_ known).normal)
    (fun insn among target goal => by
      obtain ⟨item, told, rfl⟩ := own among
      rw [Instruction.targets_normal] at goal
      exact relays.inside rising.inside ((rising.decoded item told).inside target goal))
  have starts : layout.offsets = items.map fun item => assembled.moved item.1 := by
    have all := relays.offsets
    rw [CodeAttribute.boundaries, List.map_append, List.map_map] at all
    exact (List.append_inj_left' all rfl).symm
  rw [CodeAttribute.instructions_toldNodes, List.map_map] at insns
  refine ⟨found, read, ?_⟩
  rw [← List.zip_map', offsets, insns, starts, List.zip_map']
  refine List.map_congr_left fun item _ => ?_
  rw [Function.comp_apply, Instruction.canonical_normal]
  rfl

/-! ## Bodies -/

/-- The code `after` says what `before` says, with the instructions `items` at new offsets. -/
structure CodeAttribute.Relaid (old new : Entries) (className methodName descriptor : String)
    (isStatic : Bool) (items : List (Nat × Instruction)) (moved : Nat → Nat)
    (before after : CodeAttribute) : Prop where
  strictMonoOn : StrictMonoOn moved {offset | offset ∈ boundaries items before.code.length}
  stop : moved before.code.length = after.code.length
  maxStack : after.maxStack = before.maxStack
  maxLocals : after.maxLocals = before.maxLocals
  instructions : ∃ found, decode new after.code = .ok found ∧
    found.map (fun item => (item.1, item.2.normal)) = items.map fun item =>
      (moved item.1, item.2.canonical.relabel fun label => ⟨moved label.id⟩)
  handlers : List.Forall₂ (HandlerEntry.Relaid old new moved)
    (before.handlers.filter fun row => row.start < row.stop) after.handlers
  lines : ∃ rows rows', before.lines = .ok rows ∧ after.lines = .ok rows' ∧
    List.Forall₂ (LineEntry.Relaid moved) (linesAt items rows) rows'
  frames : ∃ frames, before.frames old className methodName descriptor isStatic = .ok frames ∧
    after.frames new className methodName descriptor isStatic =
      .ok ((framesAt items frames).map (PinnedFrame.relaid moved))

namespace CodeAttribute

variable {code : CodeAttribute} {entries : Entries} {className methodName descriptor : String}
  {isStatic : Bool} {events : List MethodEvent}

/-- The payload of a body that was told and collected. -/
theorem relaid_of_encode (slotted : entries.Slotted) (fits : code.Fits entries)
    (told : (code.tell entries className methodName descriptor isStatic).Told events)
    (fewLines : ∀ rows, code.lines = .ok rows → rows.length ≤ 0xFFFF)
    (fewLocals : ∀ frames,
      code.frames entries className methodName descriptor isStatic = .ok frames →
      ∀ frame ∈ frames, frame.locals.length ≤ 0xFFFF)
    {payload : Bytes} {after : ConstantPool}
    (done : (MethodBody.ofEvents (events ++ [.finish])).encode true
      (ConstantPool.ofEntries entries) = (.ok payload, after)) :
    ∃ items moved relaid, decode entries code.code = .ok items ∧ payload = relaid.write ∧
      (CodeAttribute.read after.entries payload = .ok relaid ↔
        ∀ given ∈ relaid.attributes, given.payload.length < 2 ^ 32) ∧
      code.Relaid entries after.entries className methodName descriptor isStatic items moved
        relaid := by
  obtain ⟨body⟩ := tellsBody_of_told told
  have collects := MethodBody.collects_of_told body
  have whole := slotted.entries_ofEntries
  have sound := ConstantPool.ofEntries_sound entries
  obtain ⟨assembled, middle, relaid, tables, assembles, later, rfl, encoded⟩ :=
    MethodBody.encode_eq_ok sound done
  obtain ⟨layout, _, assembles⟩ := assemble_eq_ok sound assembles
  rw [collects.nodes, whole] at assembles
  replace assembles := assembles.extends_ later.extends_
  have rising := decode_spec body.decoded
  have starts : (body.items.map Prod.fst).Pairwise (· < ·) := List.pairwise_map.2 rising.rising
  obtain ⟨rising', lowStacks⟩ := frames_rising body.frames_eq
  -- Where things have moved is one map for all the tables, which are read back one by one below.
  have relays := assembles.relays rising
  have slotted' : after.entries.Slotted :=
    ((MethodBody.encode_grows _ true).grown sound done).slotted (whole.symm ▸ slotted)
  rw [if_pos rfl, collects.frames, filterMap_frameAt? starts rising'] at encoded
  have handlers := encoded.handlers
  rw [collects.blocks] at handlers
  have told_lines : assembled.lines =
      (linesAt body.items body.lines).map fun row => (⟨row.start.toNat⟩, row.number) := by
    rw [encoded.lines, collects.nodes, lines_toldNodes starts]
  obtain ⟨rows, chosen, tells⟩ := encoded.fills.frames
  have back := encoded.readsBack
  have payload : CodeAttribute.read after.entries relaid.write = .ok relaid ↔
      ∀ given ∈ relaid.attributes, given.payload.length < 2 ^ 32 := by
    rw [back.payload, collects.blocks]
    refine and_iff_right (Nat.lt_of_le_of_lt (List.length_filter_le _ _) ?_)
    rw [← body.handlers.length_eq]
    exact fits.handlers
  have lines : relaid.lines = .ok tables.lines := by
    rw [back.lines, ← encoded.lines, told_lines]
    have few := fewLines body.lines body.lines_eq
    refine Nat.lt_of_le_of_lt (List.length_filter_le _ _) ?_
    rw [List.length_map, linesAt, List.length_mergeSort]
    exact Nat.lt_succ_of_le (Nat.le_trans (List.length_filter_le _ _) few)
  have stackMap : relaid.stackMap = .ok tables.frames := by
    refine (back.frames rows chosen).2 fun row among => ?_
    obtain rfl := Except.ok.inj ((relays.kept rising.inside rising').symm.trans chosen)
    obtain ⟨frame, own, rfl⟩ := List.mem_map.1 among
    have given := List.mem_of_mem_filter own
    exact ⟨Nat.lt_succ_of_le (fewLocals body.frames body.frames_eq frame given),
      lowStacks frame given⟩
  refine ⟨body.items, assembled.moved, relaid, body.decoded, rfl, payload, ?_⟩
  exact {
    strictMonoOn := relays.strictMonoOn
    stop := by rw [relays.moved_length, encoded.array]
    maxStack := by rw [encoded.maxStack, collects.maxStack]
    maxLocals := by rw [encoded.maxLocals, collects.maxLocals]
    instructions := by
      rw [encoded.array]
      exact assembles.decodes_told rising (.refl _)
    handlers := relays.handlers slotted' body.handlers
      (fun block among => encoded.blocksPlaced block (by rwa [collects.blocks])) handlers
    lines := ⟨body.lines, tables.lines, body.lines_eq, lines,
      relays.lines rising.inside told_lines encoded.fills.lines⟩
    frames := ⟨body.frames, body.frames_eq, relays.frames rising.inside body.frames_eq chosen tells
      stackMap (encoded.array ▸ encoded.small)⟩ }

end CodeAttribute

theorem Member.fits_of_code? {method : Member} {entries : Entries} {code : CodeAttribute}
    (known : method.code? entries = .ok (some code)) : code.Fits entries := by
  unfold code? at known
  split at known
  · obtain ⟨_, found, same⟩ := Outcome.map_eq_ok.1 known
    cases same
    exact CodeAttribute.fits_of_read found
  · cases known

/-- **A method that is told, collected and encoded is still the method it was.**  Its instructions have
moved and everything that names their offsets has moved with them.  The payload is read back unless
it has an attribute too long for the four bytes of its length. -/
theorem ClassFile.method_relaid {bytes : Bytes} {file : ClassFile}
    (read : ClassFile.read bytes = .ok file) {method : Member} {code : CodeAttribute}
    (known : method.code? file.entries = .ok (some code)) {className name descriptor : String}
    {events : List MethodEvent}
    (told : (method.tell file.entries className name descriptor).Told events)
    (fewLines : ∀ rows, code.lines = .ok rows → rows.length ≤ 0xFFFF)
    (fewLocals : ∀ frames, code.frames file.entries className name descriptor
        (AccessFlag.static.isIn method.access) = .ok frames →
      ∀ frame ∈ frames, frame.locals.length ≤ 0xFFFF)
    {payload : Bytes} {after : ConstantPool}
    (done : (MethodBody.ofEvents events).encode true (ConstantPool.ofEntries file.entries) =
      (.ok payload, after)) :
    ∃ items moved relaid, decode file.entries code.code = .ok items ∧ payload = relaid.write ∧
      (CodeAttribute.read after.entries payload = .ok relaid ↔
        ∀ given ∈ relaid.attributes, given.payload.length < 2 ^ 32) ∧
      code.Relaid file.entries after.entries className name descriptor
        (AccessFlag.static.isIn method.access) items moved relaid := by
  obtain ⟨body, rfl, ⟨none_, _⟩ | ⟨code', known', told⟩⟩ := Member.tell_told told
  · rw [known] at none_
    cases none_
  · obtain rfl : code' = code := by simpa using known'.symm.trans known
    exact CodeAttribute.relaid_of_encode (ClassFile.fits_of_read read).slotted
      (Member.fits_of_code? known) told fewLines fewLocals done

/-- `class A { static void m(int i) { ... } }`.  The code loads the argument by a wide instruction, and
its second handler has no range.  The lines are out of order, and one of them stands inside an
instruction.  The second frame has the object of a `new` at offset zero on the stack. -/
def Sample.rambling : Bytes :=
  [0xCA, 0xFE, 0xBA, 0xBE, 0, 0, 0, 52,
    0, 10, 1, 0, 1, 65, 7, 0, 1, 1, 0, 1, 109, 1, 0, 4, 40, 73, 41, 86, 1, 0, 4, 67, 111, 100, 101,
    1, 0, 13, 83, 116, 97, 99, 107, 77, 97, 112, 84, 97, 98, 108, 101,
    1, 0, 16, 106, 97, 118, 97, 47, 108, 97, 110, 103, 47, 79, 98, 106, 101, 99, 116, 7, 0, 7,
    1, 0, 15, 76, 105, 110, 101, 78, 117, 109, 98, 101, 114, 84, 97, 98, 108, 101,
    0, 33, 0, 2, 0, 8, 0, 0, 0, 0, 0, 1, 0, 9, 0, 3, 0, 4, 0, 1, 0, 5, 0, 0, 0, 76,
    0, 1, 0, 1, 0, 0, 0, 8, 0xC4, 0x15, 0, 0, 0x57, 0xA7, 0xFF, 0xFB,
    0, 2, 0, 0, 0, 5, 0, 4, 0, 0, 0, 4, 0, 4, 0, 0, 0, 0,
    0, 2, 0, 9, 0, 0, 0, 14, 0, 3, 0, 5, 0, 2, 0, 3, 0, 9, 0, 0, 0, 1,
    0, 6, 0, 0, 0, 14, 0, 2, 0, 255, 0, 3, 0, 1, 1, 0, 1, 8, 0, 0,
    0, 0]

/-- What comes of the method: the wide instruction is short, and everything behind it stands two
bytes earlier. -/
def Sample.ramblingOn : Bytes :=
  [0, 1, 0, 1, 0, 0, 0, 6, 0x15, 0, 0x57, 0xA7, 0xFF, 0xFD, 0, 1, 0, 0, 0, 3, 0, 2, 0, 0,
    0, 2, 0, 6, 0, 0, 0, 21, 0, 2, 255, 0, 0, 0, 1, 1, 0, 0, 255, 0, 1, 0, 1, 1, 0, 1, 8, 0, 0,
    0, 9, 0, 0, 0, 10, 0, 2, 0, 0, 0, 1, 0, 3, 0, 2]

theorem ClassFile.method_relaid_rambling : ∃ (file : ClassFile) (method : Member)
    (code : CodeAttribute) (events : List MethodEvent) (after : ConstantPool),
    ClassFile.read Sample.rambling = .ok file ∧ method ∈ file.methods ∧
    method.code? file.entries = .ok (some code) ∧
    (method.tell file.entries "A" "m" "(I)V").Told events ∧
    (∀ rows, code.lines = .ok rows → rows.length ≤ 0xFFFF) ∧
    (∀ frames, code.frames file.entries "A" "m" "(I)V" (AccessFlag.static.isIn method.access) =
      .ok frames → ∀ frame ∈ frames, frame.locals.length ≤ 0xFFFF) ∧
    (MethodBody.ofEvents events).encode true (ConstantPool.ofEntries file.entries) =
      (.ok Sample.ramblingOn, after) ∧
    ∃ items moved relaid, decode file.entries code.code = .ok items ∧
      Sample.ramblingOn = relaid.write ∧
      (CodeAttribute.read after.entries Sample.ramblingOn = .ok relaid ↔
        ∀ given ∈ relaid.attributes, given.payload.length < 2 ^ 32) ∧
      code.Relaid file.entries after.entries "A" "m" "(I)V"
        (AccessFlag.static.isIn method.access) items moved relaid := by
  have runs : ((ClassFile.read Sample.rambling).toOption.any fun file =>
      file.methods.any fun method => (method.code? file.entries).toOption.any fun code? =>
        code?.any fun code =>
          let told := method.tell file.entries "A" "m" "(I)V"
          decide (told.fault = none) && code.lines.toOption.all (fun rows => rows.length ≤ 0xFFFF) &&
            (code.frames file.entries "A" "m" "(I)V"
              (AccessFlag.static.isIn method.access)).toOption.all
                (fun frames => frames.all fun frame => frame.locals.length ≤ 0xFFFF) &&
            decide (((MethodBody.ofEvents told.events).encode true
              (ConstantPool.ofEntries file.entries)).1 = .ok Sample.ramblingOn)) = true := by
    simp only [MethodBody.encode, AssembledCode.encode, AssembledCode.stackMapTable,
      StackMap.encode_by_insertion]
    decide +kernel
  obtain ⟨file, read, ofFile⟩ := Outcome.exists_of_any runs
  obtain ⟨method, among, ofMethod⟩ := List.any_eq_true.1 ofFile
  obtain ⟨_, known, ofCode⟩ := Outcome.exists_of_any ofMethod
  obtain ⟨code, rfl, each⟩ := (Option.any_eq_true _ _).1 ofCode
  simp only [Bool.and_eq_true, decide_eq_true_eq] at each
  obtain ⟨⟨⟨whole, fewLines⟩, fewLocals⟩, done⟩ := each
  have told : (method.tell file.entries "A" "m" "(I)V").Told _ := Telling.told_iff.2 ⟨rfl, whole⟩
  have lines : ∀ rows, code.lines = .ok rows → rows.length ≤ 0xFFFF := by
    intro rows same
    rw [same] at fewLines
    exact of_decide_eq_true fewLines
  have locals_ : ∀ frames, code.frames file.entries "A" "m" "(I)V"
      (AccessFlag.static.isIn method.access) = .ok frames →
      ∀ frame ∈ frames, frame.locals.length ≤ 0xFFFF := by
    intro frames same frame within
    rw [same] at fewLocals
    exact of_decide_eq_true (List.all_eq_true.1 fewLocals frame within)
  obtain ⟨after, encoded⟩ : ∃ after, (MethodBody.ofEvents
      (method.tell file.entries "A" "m" "(I)V").events).encode true
        (ConstantPool.ofEntries file.entries) = (.ok Sample.ramblingOn, after) :=
    ⟨_, Prod.ext done rfl⟩
  exact ⟨file, method, code, _, after, read, among, known, told, lines, locals_, encoded,
    ClassFile.method_relaid read known told lines locals_ encoded⟩

/-! ### A stack map that outgrows its length

A frame like the one before it takes one byte of a class file, and is encoded in full all the same.
So the stack map of a method that is told, collected and encoded can be many thousand times as long
as it was. -/

open AssembledCode

/-- So many instructions that do nothing, with their offsets. -/
def Sample.nops (count : Nat) : List (Nat × Instruction) :=
  (List.range count).map fun i => (i, .simple Opcode.nop)

theorem Sample.upToEnd_nops (entries : Entries) (length : Nat) :
    ∀ (count origin : Nat) (found : List (Nat × Instruction)),
      Decode.upToEnd entries length (count + 1) found ⟨origin, List.replicate count Opcode.nop⟩ =
        .ok (found.reverse ++ (List.range' origin count).map fun i => (i, .simple Opcode.nop))
  | 0, origin, found => by simp [Decode.upToEnd]
  | count + 1, origin, found => by
    have one : Decode.instruction entries length
        ⟨origin, Opcode.nop :: List.replicate count Opcode.nop⟩ =
          .ok ((origin, .simple Opcode.nop), ⟨origin + 1, List.replicate count Opcode.nop⟩) := rfl
    rw [List.replicate_succ, Decode.upToEnd]
    simp only [List.isEmpty_cons, Bool.false_eq_true, if_false, one]
    rw [upToEnd_nops entries length count, List.range'_succ]
    simp

theorem Sample.decode_nops (entries : Entries) (count : Nat) :
    decode entries (List.replicate count Opcode.nop) = .ok (nops count) := by
  have all := upToEnd_nops entries count count 0 []
  rw [decode, List.length_replicate, Cursor.start, all, nops, List.range_eq_range']
  rfl

/-- Each instruction is laid out behind its label. -/
theorem Sample.lay_nops (pool : ConstantPool) (count : Nat) :
    ((nops count).flatMap (CodeAttribute.lineNodes [])).foldlM Layout.add Layout.empty pool =
      (.ok ⟨count, Sample.marks count, [],
        ((List.range count).map fun i => (i, [Piece.bytes [Opcode.nop]])).reverse⟩, pool) := by
  induction count with
  | zero => rfl
  | succ count ih =>
    rw [nops, List.range_succ, List.map_append, List.flatMap_append, List.foldlM_append]
    refine Interning.bind_eq_ok.2 ⟨_, pool, ih, ?_⟩
    rw [Sample.marks_succ, List.map_append, List.reverse_append]
    rfl

theorem Sample.assemble_nops {count : Nat} (small : count ≤ 0xFFFF) (pool : ConstantPool) :
    assemble (CodeAttribute.toldNodes [] (nops count) count) pool =
      (.ok (Sample.marked count), pool) := by
  have laid : (CodeAttribute.toldNodes [] (nops count) count).foldlM Layout.add Layout.empty pool =
      (.ok ⟨count, Sample.marks (count + 1), [],
        ((List.range count).map fun i => (i, [Piece.bytes [Opcode.nop]])).reverse⟩, pool) := by
    rw [CodeAttribute.toldNodes, List.foldlM_append, Sample.marks_succ]
    exact Interning.bind_eq_ok.2 ⟨_, pool, lay_nops pool count, rfl⟩
  have closed (i : Nat) : AssembledCode.closeAll (Sample.marks (count + 1)) i
      [Piece.bytes [Opcode.nop]] = .ok [Opcode.nop] := rfl
  have code : Layout.code ⟨count, Sample.marks (count + 1), [],
      ((List.range count).map fun i => (i, [Piece.bytes [Opcode.nop]])).reverse⟩ =
        .ok (List.replicate count Opcode.nop) := by
    refine Outcome.bind_eq_ok.2 ⟨(List.range count).map fun _ => [Opcode.nop], ?_, ?_⟩
    · rw [List.reverse_reverse, Outcome.mapM_eq_ok, List.forall₂_map_left_iff,
        List.forall₂_map_right_iff, List.forall₂_same]
      exact fun i _ => closed i
    · rw [List.map_const', List.length_range]
      exact congrArg Except.ok List.flatten_replicate_singleton
  refine Interning.bind_eq_ok.2 ⟨_, pool, laid, ?_⟩
  simp only [Nat.not_lt.2 small, if_false]
  exact Interning.bind_eq_ok.2 ⟨_, pool, congrArg (·, pool) code, rfl⟩

/-- A frame in full, with so many locals. -/
def Sample.fullFrame (width : Nat) : Bytes :=
  255 :: (Bytes.u2 0 ++ (Bytes.count width ++ List.replicate width 1) ++ (Bytes.count 0 ++ []))

/-- Such a frame, and so many more that are like it. -/
def Sample.sameFrames (count width : Nat) : Bytes := fullFrame width ++ List.replicate count 0

theorem Sample.spelled_same (pool : Entries) (width : Nat) : ∀ count next : Nat,
    FramesSpelled pool next (List.replicate width .int)
      ((List.range' next count).map (Sample.wide width)) (List.replicate count 0)
  | 0, next => .nil next _
  | count + 1, next => by
    have distance : (Sample.wide width next).label.id - next = 0 := Nat.sub_self next
    have one : FrameSpelling pool (List.replicate width .int)
        ((Sample.wide width next).label.id - next) (List.replicate width .int) [] [0] := by
      rw [distance]
      exact .same (Nat.zero_le _)
    rw [List.range'_succ, List.map_cons, List.replicate_succ]
    exact .cons (Nat.le_refl _) one (spelled_same pool width count (next + 1))

theorem Sample.spelled_crammed (pool : Entries) (before : List FrameType) (count : Nat)
    {width : Nat} (fits : width ≤ 0xFFFF) :
    FramesSpelled pool 0 before (Sample.crammed (count + 1) width) (sameFrames count width) := by
  have each (n : Nat) : List.Forall₂ (FrameType.Spelled pool) (List.replicate n .int)
      (List.replicate n [1]) := by
    induction n with
    | zero => exact .nil
    | succ n ih => exact .cons .int ih
  have ints : TypesSpelled pool (List.replicate width .int) (List.replicate width 1) :=
    ⟨List.replicate width [1], each width, List.flatten_replicate_singleton.symm⟩
  have first : FrameSpelling pool before 0 (List.replicate width .int) [] (fullFrame width) := by
    have all := @FrameSpelling.full pool before 0 _ _ _ _ (Nat.zero_le _)
      (List.length_replicate.le.trans fits) (Nat.zero_le _) ints ⟨[], .nil, rfl⟩
    rwa [List.length_replicate] at all
  rw [Sample.crammed, List.range_eq_range', List.range'_succ, List.map_cons]
  exact .cons (Nat.le_refl _) first (spelled_same pool width count 1)

/-- A pool for a class with such a method. -/
def Sample.crammedPool : Entries :=
  #[.unusable, .utf8 "A", .class 1, .utf8 "m", .utf8 "()V", .utf8 "Code", .utf8 "StackMapTable"]

/-- Code with one instruction for each frame. -/
def Sample.crammedCode (count width : Nat) : CodeAttribute :=
  ⟨0, 0, List.replicate (count + 1) Opcode.nop, [],
    [⟨6, Attribute.stackMapTable, Bytes.count (count + 1) ++ sameFrames count width⟩]⟩

def Sample.crammedMethod (count width : Nat) : Member :=
  ⟨8, 3, 4, [⟨5, Attribute.code, (crammedCode count width).write⟩]⟩

def Sample.crammedFile (count width : Nat) : ClassFile :=
  ⟨0, 50, crammedPool, 1, 2, 0, [], [], [crammedMethod count width], []⟩

theorem Sample.frames_crammed {count width : Nat} (few : count < 0xFFFF) (fits : width ≤ 0xFFFF) :
    (crammedCode count width).frames crammedPool "A" "m" "()V" true =
      .ok (Sample.crammed (count + 1) width) := by
  obtain ⟨table, parts, size, same, each, expanded⟩ :=
    (spelled_crammed crammedPool (compactLocals Frame.empty.locals) count fits).entries
  have count_ : table.length = count + 1 := by
    rw [size, Sample.crammed, List.length_map, List.length_range]
  have initial : Frame.initial "A" "m" "()V" true = .ok Frame.empty := by decide +kernel
  refine CodeAttribute.frames_eq_ok.2 ⟨table, ?_, ?_⟩
  · have run := (Reads.tableEach 0 (by omega) each).run []
    rw [List.append_nil, count_, ← same] at run
    exact run
  · rw [if_neg (by rintro rfl; cases count_)]
    exact ⟨Frame.empty, initial, expanded []⟩

open Telling in
/-- Code with nothing but instructions and frames is told to its end. -/
theorem CodeAttribute.tell_frames {code : CodeAttribute} {entries : Entries}
    {className methodName descriptor : String} {isStatic : Bool}
    {items : List (Nat × Instruction)} {frames : List PinnedFrame}
    (decoded : decode entries code.code = .ok items) (handlers : code.handlers = [])
    (lines : code.lines = .ok []) (types : code.variableTypes = .ok [])
    (rows : code.variableRows = .ok [])
    (frames_eq : code.frames entries className methodName descriptor isStatic = .ok frames) :
    ∃ events, (code.tell entries className methodName descriptor isStatic).Told events ∧
      ∃ body : code.TellsBody entries className methodName descriptor isStatic events,
        body.declared = [] := by
  have told : (code.tell entries className methodName descriptor isStatic).Told
      ([.sizes code.maxStack code.maxLocals] ++ ([] ++ (items.flatMap (fun item =>
        tellInstruction (linesByOffset []) (framesByOffset frames) item.1 item.2) ++
        [.label ⟨code.code.length⟩] ++ ([] ++ [.maxs code.maxStack code.maxLocals])))) := by
    unfold tell
    refine told_followedBy.2 ⟨_, _, told_ofList.2 rfl, ?_, rfl⟩
    refine told_having.2 ⟨items, decoded, told_followedBy.2 ⟨[], _, ?_, ?_, rfl⟩⟩
    · rw [handlers]
      rfl
    refine told_having.2 ⟨[], lines, told_having.2 ⟨frames, frames_eq, ?_⟩⟩
    refine told_followedBy.2 ⟨_, _, told_ofList.2 rfl, ?_, rfl⟩
    refine told_having.2 ⟨∅, by rw [types]; rfl, told_having.2 ⟨[], rows, ?_⟩⟩
    exact told_followedBy.2 ⟨[], _, rfl, told_ofList.2 rfl, rfl⟩
  have none_ : List.Forall₂ (TellsBlock entries code.code.length) code.handlers [] := by
    rw [handlers]
    exact .nil
  exact ⟨_, told, ⟨items, [], [], frames, [], decoded, none_, lines, frames_eq, by simp⟩, rfl⟩

theorem Sample.rows_crammed (count width : Nat) {α : Type} {name : String} (read : Reader α)
    (other : name ≠ Attribute.stackMapTable) :
    (crammedCode count width).rows name read = .ok [] := by
  have none_ : (crammedCode count width).attributes.filter (·.name == name) = [] := by
    simp [crammedCode, Ne.symm other]
  rw [CodeAttribute.rows, none_]
  rfl

theorem Sample.fits_crammed {count width : Nat} (few : count < 0xFFFF) (fits : width ≤ 0xFFFF) :
    (crammedCode count width).Fits crammedPool := by
  refine ⟨?_, Nat.zero_lt_succ _, Nat.succ_lt_succ (Nat.zero_lt_succ _), fun given among => ?_⟩
  · simp only [crammedCode, List.length_replicate]
    omega
  · obtain rfl := List.mem_singleton.1 among
    refine ⟨rfl, ?_⟩
    simp only [sameFrames, fullFrame, List.length_append, List.length_cons, List.length_replicate,
      Bytes.length_count, Bytes.length_u2, List.length_nil]
    omega

theorem Sample.file_crammed {count width : Nat} (few : count < 0xFFFF) (fits : width ≤ 0xFFFF) :
    ∃ bytes, ClassFile.read bytes = .ok (crammedFile count width) := by
  have slotted : crammedPool.Slotted := by
    refine ⟨crammedPool.toList.drop 1, ?_, rfl⟩
    simp [crammedPool]
  have short : (crammedCode count width).write.length < 2 ^ 32 := by
    simp only [CodeAttribute.write, crammedCode, sameFrames, fullFrame, Attribute.writeTable,
      Attribute.write, List.flatMap_nil, List.flatMap_cons, List.length_append, List.length_cons,
      List.length_nil, List.length_replicate, Bytes.length_count, Bytes.length_u2, Bytes.length_u4]
    omega
  have whole : (crammedFile count width).Fits := by
    refine ⟨slotted, Nat.zero_lt_succ _, ⟨Nat.zero_lt_succ _, List.forall_mem_nil _⟩,
      ⟨Nat.succ_lt_succ (Nat.zero_lt_succ _), fun method among => ?_⟩,
      ⟨Nat.zero_lt_succ _, List.forall_mem_nil _⟩⟩
    obtain rfl := List.mem_singleton.1 among
    refine ⟨Nat.succ_lt_succ (Nat.zero_lt_succ _), fun given within => ?_⟩
    obtain rfl := List.mem_singleton.1 within
    exact ⟨rfl, short⟩
  obtain ⟨pool, stored⟩ : ∃ pool, crammedPool.write = .ok pool := ⟨_, rfl⟩
  exact ⟨_, ClassFile.read_written whole (Outcome.bind_eq_ok.2 ⟨pool, stored, rfl⟩)⟩

/-- What is collected of the method is an instruction for each frame. -/
theorem Sample.encode_told {count width : Nat} (few : count < 0xFFFF) (fits : width ≤ 0xFFFF)
    {events : List MethodEvent}
    (body : (crammedCode count width).TellsBody crammedPool "A" "m" "()V" true events)
    (bare : body.declared = []) (pool : ConstantPool) :
    (MethodBody.ofEvents (events ++ [.finish])).encode true pool =
      (Sample.marked (count + 1)).encode 0 0 [] (some (Sample.crammed (count + 1) width)) []
        pool := by
  have collects := MethodBody.collects_of_told body
  have items : body.items = nops (count + 1) :=
    Except.ok.inj (body.decoded.symm.trans (decode_nops crammedPool (count + 1)))
  have frames : body.frames = Sample.crammed (count + 1) width :=
    Except.ok.inj (body.frames_eq.symm.trans (frames_crammed few fits))
  have lines : body.lines = [] :=
    Except.ok.inj (body.lines_eq.symm.trans (rows_crammed count width _ (by decide)))
  have blocks : body.blocks = [] := List.forall₂_nil_left_iff.1 body.handlers
  have size : (crammedCode count width).code.length = count + 1 := List.length_replicate
  have starts : (nops (count + 1)).map Prod.fst = List.range (count + 1) := by
    simp [nops, Function.comp_def]
  have nodes := collects.nodes
  rw [lines, items, size] at nodes
  have kept : (MethodBody.ofEvents (events ++ [.finish])).frames.toList =
      Sample.crammed (count + 1) width := by
    have rising : ((nops (count + 1)).map Prod.fst).Pairwise (· < ·) :=
      starts ▸ List.pairwise_lt_range
    obtain ⟨rising', -⟩ := CodeAttribute.frames_rising body.frames_eq
    rw [collects.frames, items, CodeAttribute.filterMap_frameAt? rising rising', frames,
      CodeAttribute.framesAt, starts]
    refine List.filter_eq_self.2 fun frame among => decide_eq_true ?_
    obtain ⟨i, inside, rfl⟩ := List.mem_map.1 among
    exact inside
  have assembled := assemble_nops (Nat.succ_le_of_lt few) pool
  rw [← nodes] at assembled
  rw [MethodBody.encode, Interning.bind_run, assembled]
  simp only [collects.blocks, blocks, kept, collects.declared, bare, collects.maxStack,
    collects.maxLocals, if_true]
  rfl

theorem Sample.code?_crammed {count width : Nat} (few : count < 0xFFFF) (fits : width ≤ 0xFFFF) :
    (crammedMethod count width).code? crammedPool = .ok (some (crammedCode count width)) :=
  congrArg (Except.map some) (CodeAttribute.read_write_iff.2 (fits_crammed few fits))

theorem Sample.static_crammed : AccessFlag.static.isIn 8 = true := by decide +kernel

/-- The method is told to its end, and collected. -/
theorem Sample.tell_crammed {count width : Nat} (few : count < 0xFFFF) (fits : width ≤ 0xFFFF) :
    ∃ events, ((crammedMethod count width).tell crammedPool "A" "m" "()V").Told events ∧
      ∀ pool, (MethodBody.ofEvents events).encode true pool =
        (Sample.marked (count + 1)).encode 0 0 [] (some (Sample.crammed (count + 1) width)) []
          pool := by
  obtain ⟨events, told, body, bare⟩ := CodeAttribute.tell_frames
    (decode_nops crammedPool (count + 1)) rfl
    (rows_crammed count width LineEntry.read (by decide))
    (rows_crammed count width VariableEntry.read (by decide))
    (rows_crammed count width VariableEntry.read (by decide))
    (frames_crammed few fits)
  have access : (crammedMethod count width).access = 8 := rfl
  have whole : (crammedMethod count width).tell crammedPool "A" "m" "()V" =
      ((crammedCode count width).tell crammedPool "A" "m" "()V" true).followedBy fun _ =>
        Telling.ofList [.finish] := by
    rw [Member.tell, code?_crammed few fits, access, static_crammed]
    rfl
  refine ⟨events ++ [.finish], ?_, ?_⟩
  · rw [whole]
    exact Telling.told_followedBy.2 ⟨events, [.finish], told, Telling.told_ofList.2 rfl, rfl⟩
  · intro pool
    exact encode_told few fits body bare pool

theorem Sample.name_crammed :
    Interning.utf8 Attribute.stackMapTable (ConstantPool.ofEntries crammedPool) =
      (.ok 6, ConstantPool.ofEntries crammedPool) := by
  have known : (ConstantPool.ofEntries crammedPool).places[Constant.utf8 Attribute.stackMapTable]? =
      some 6 := by decide +kernel
  exact Interning.place_eq_of_known known _

/-- **Frames of one byte each become more than four bytes can count**, and there is no error: the
payload of the method is encoded, but it is not read. -/
theorem ClassFile.method_crammed_unread : ∃ (bytes : Bytes) (file : ClassFile) (method : Member)
    (code : CodeAttribute) (events : List MethodEvent) (payload : Bytes) (after : ConstantPool),
    ClassFile.read bytes = .ok file ∧ method ∈ file.methods ∧
    method.code? file.entries = .ok (some code) ∧
    (method.tell file.entries "A" "m" "()V").Told events ∧
    code.lines = .ok [] ∧ code.handlers = [] ∧ code.variableRows = .ok [] ∧
    (∀ frames, code.frames file.entries "A" "m" "()V" (AccessFlag.static.isIn method.access) =
      .ok frames → ∀ frame ∈ frames, frame.locals.length ≤ 0xFFFF) ∧
    (MethodBody.ofEvents events).encode true (ConstantPool.ofEntries file.entries) =
      (.ok payload, after) ∧
    CodeAttribute.read after.entries payload = .error (.invalidAttribute Attribute.code) := by
  -- The two numbers stay hidden from here on, lest anything be unfolded that many times.
  obtain ⟨count, width, few, fits, long⟩ : ∃ count width, count < 0xFFFF ∧ width ≤ 0xFFFF ∧
      2 ^ 32 ≤ 2 + (count + 1) * (7 + width) := ⟨0xFFFE, 0xFFFF, by decide⟩
  obtain ⟨bytes, read⟩ := Sample.file_crammed few fits
  obtain ⟨events, told, same⟩ := Sample.tell_crammed few fits
  obtain ⟨payload, done⟩ :=
    Sample.encode_crammed (Nat.succ_ne_zero count) width 0 0 Sample.name_crammed
  have unread :=
    Sample.unread_of_long (Nat.succ_le_of_lt few) long (ConstantPool.ofEntries_sound _) done
  refine ⟨bytes, Sample.crammedFile count width, Sample.crammedMethod count width,
    Sample.crammedCode count width, events, payload, _, read, List.mem_singleton_self _,
    Sample.code?_crammed few fits, told, Sample.rows_crammed _ _ _ (by decide), rfl,
    Sample.rows_crammed _ _ _ (by decide), ?_, (same _).trans done, unread⟩
  intro frames known frame among
  have access : (Sample.crammedMethod count width).access = 8 := rfl
  rw [access, Sample.static_crammed] at known
  obtain rfl := Except.ok.inj (known.symm.trans (Sample.frames_crammed few fits))
  obtain ⟨i, -, rfl⟩ := List.mem_map.1 among
  exact Nat.le_trans (Nat.le_of_eq List.length_replicate) fits

end ClassWeave
