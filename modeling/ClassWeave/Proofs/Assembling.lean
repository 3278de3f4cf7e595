/-
# ClassWeave.Proofs.Assembling -- assembled code read back

`Layout.Lays` is the run of the first pass of the assembler: node after node, each
instruction spelled at the offset where the layout ended.  It is stated for the table of
constants that is there in the end, so that instructions keep their meaning while later
ones intern.  `Layout.Closes` is the second pass: the bytes of one row after the other.

Together they give what the reader of code finds (`decode_assemble`): the instructions
that were assembled, at the offsets they were laid out at.  Instructions that nothing
could read back are let through, since the others do not depend on them.
-/
import ClassWeave.Proofs.CodeGrowth
import ClassWeave.Proofs.InstructionRoundTrip

set_option autoImplicit false

namespace ClassWeave

/-- The place of a line and its number. -/
def Node.line? : Node → Option (Label × UInt16)
  | line number start => some (start, number)
  | _ => none

namespace Layout

/-! ## The first pass -/

/-- One node laid out.  Instructions that are well formed in the table of `first` are spelled in
the table of `entries`. -/
inductive Adds (first entries : Entries) : Node → Layout → Layout → Prop
  | label (label : Label) (layout : Layout) :
      Adds first entries (.label label) layout
        { layout with labels := layout.labels.insert label layout.size }
  | line (number : UInt16) (start : Label) (layout : Layout) :
      Adds first entries (.line number start) layout
        { layout with lines := (start, number) :: layout.lines }
  | insn {insn : Instruction} {pieces : List Piece} (layout : Layout)
      (filled : 0 < sizeOf pieces)
      (spelled : insn.WellFormed first → insn.SpelledBy entries layout.size pieces) :
      Adds first entries (.insn insn) layout
        { layout with
          size := layout.size + sizeOf pieces
          placed := (layout.size, pieces) :: layout.placed }

/-- Nodes laid out one after the other. -/
inductive Lays (first entries : Entries) : List Node → Layout → Layout → Prop
  | done (layout : Layout) : Lays first entries [] layout layout
  | more {node : Node} {nodes : List Node} {before middle after : Layout}
      (one : Adds first entries node before middle) (rest : Lays first entries nodes middle after) :
      Lays first entries (node :: nodes) before after

variable {first entries later : Entries} {before after : Layout} {node : Node}
  {nodes : List Node}

theorem Adds.extends_ (extends_ : entries.Extends later)
    (adds : Adds first entries node before after) : Adds first later node before after := by
  cases adds with
  | label => exact .label _ _
  | line => exact .line _ _ _
  | insn _ filled spelled =>
    exact .insn _ filled fun wellFormed => (spelled wellFormed).extends_ extends_

theorem Lays.extends_ (extends_ : entries.Extends later)
    (lays : Lays first entries nodes before after) : Lays first later nodes before after := by
  induction lays with
  | done layout => exact .done layout
  | more one _ ih => exact .more (one.extends_ extends_) ih

theorem add_leads {pool : ConstantPool} (sound : pool.Sound) (known : first.Extends pool.entries)
    (layout : Layout) (node : Node) :
    Interning.Leads (layout.add node) pool fun layout' after =>
      Adds first after.entries node layout layout' := by
  cases node with
  | label label => exact .pure (.label label layout)
  | line number start => exact .pure (.line number start layout)
  | insn insn =>
    have filled := Instruction.pieces_filled sound layout.size insn
    by_cases wellFormed : insn.WellFormed first
    · have spelled := Instruction.pieces_leads sound layout.size (wellFormed.extends_ known)
      exact (filled.and spelled).bind fun pieces middle _ holds =>
        .pure (.insn layout holds.1 fun _ => holds.2)
    · exact filled.bind fun pieces middle _ holds =>
        .pure (.insn layout holds fun wrong => absurd wrong wellFormed)

theorem foldlM_add_leads : ∀ (nodes : List Node) (layout : Layout) {pool : ConstantPool},
    pool.Sound → first.Extends pool.entries →
    Interning.Leads (nodes.foldlM add layout) pool fun layout' after =>
      Lays first after.entries nodes layout layout'
  | [], layout, _, _, _ => .pure (.done layout)
  | node :: nodes, layout, pool, sound, known => by
    rw [List.foldlM_cons]
    refine (add_leads sound known layout node).bind fun layout' middle grown one => ?_
    have rest := foldlM_add_leads nodes layout' (grown.sound sound)
      (known.trans grown.extends_)
    exact rest.mono fun _ after later rest => .more (one.extends_ later.extends_) rest

theorem Lays.append_inv : ∀ {early late : List Node} {before after : Layout},
    Lays first entries (early ++ late) before after →
    ∃ middle, Lays first entries early before middle ∧ Lays first entries late middle after
  | [], _, before, _, lays => ⟨before, .done before, lays⟩
  | _ :: _, _, _, _, .more one rest => by
    obtain ⟨middle, early, late⟩ := rest.append_inv
    exact ⟨middle, .more one early, late⟩

theorem Lays.append {early late : List Node} {middle : Layout}
    (start : Lays first entries early before middle) (rest : Lays first entries late middle after) :
    Lays first entries (early ++ late) before after := by
  induction start with
  | done => exact rest
  | more one _ ih => exact .more one (ih rest)

theorem Lays.size_le (lays : Lays first entries nodes before after) : before.size ≤ after.size := by
  induction lays with
  | done => exact Nat.le_refl _
  | more one _ ih =>
    refine Nat.le_trans ?_ ih
    cases one with
    | label | line => exact Nat.le_refl _
    | insn => exact Nat.le_add_right _ _

theorem Lays.placed_kept (lays : Lays first entries nodes before after) {row : Nat × List Piece}
    (among : row ∈ before.placed) : row ∈ after.placed := by
  induction lays with
  | done => exact among
  | more one _ ih =>
    refine ih ?_
    cases one with
    | label | line => exact among
    | insn => exact List.mem_cons_of_mem _ among

/-- Lines are kept in their order. -/
theorem Lays.lines (lays : Lays first entries nodes before after) :
    after.lines.reverse = before.lines.reverse ++ nodes.filterMap Node.line? := by
  induction lays with
  | done => exact (List.append_nil _).symm
  | more one _ ih =>
    rw [ih]
    cases one with
    | label => rfl
    | line number start =>
      rw [List.reverse_cons, List.append_assoc]
      rfl
    | insn => rfl

/-! ## The offsets of labels -/

/-- Only labels that are placed have an offset. -/
theorem Lays.label_placed {label : Label} (lays : Lays first entries nodes before after)
    (known : (after.labels[label]?).isSome) :
    .label label ∈ nodes ∨ (before.labels[label]?).isSome := by
  induction lays with
  | done => exact .inr known
  | more one _ ih =>
    rcases ih known with later | here
    · exact .inl (List.mem_cons_of_mem _ later)
    · cases one with
      | label other =>
        by_cases same : other = label
        · exact .inl (same ▸ List.mem_cons_self)
        · rw [Std.TreeMap.getElem?_insert, if_neg (by rwa [Std.compare_eq_iff_eq])] at here
          exact .inr here
      | line => exact .inr here
      | insn => exact .inr here

/-- No label stands past the end of the layout. -/
theorem Lays.label_le {label : Label} {offset : Nat} (lays : Lays first entries nodes before after)
    (within : ∀ offset, before.labels[label]? = some offset → offset ≤ before.size)
    (known : after.labels[label]? = some offset) : offset ≤ after.size := by
  induction lays with
  | done => exact within offset known
  | more one _ ih =>
    refine ih (fun offset known => ?_) known
    cases one with
    | label other =>
      rw [Std.TreeMap.getElem?_insert] at known
      split at known
      · cases known
        exact Nat.le_refl _
      · exact within offset known
    | line => exact within offset known
    | insn => exact Nat.le_trans (within offset known) (Nat.le_add_right _ _)

/-- A label stays where it is unless it is placed once more. -/
theorem Lays.label_kept {label : Label} (lays : Lays first entries nodes before after)
    (fresh : .label label ∉ nodes) : after.labels[label]? = before.labels[label]? := by
  induction lays with
  | done => rfl
  | more one rest ih =>
    rw [ih (fun among => fresh (List.mem_cons_of_mem _ among))]
    cases one with
    | label other =>
      have apart : other ≠ label := fun same => fresh (same ▸ List.mem_cons_self)
      rw [Std.TreeMap.getElem?_insert, if_neg (by rwa [Std.compare_eq_iff_eq])]
    | line => rfl
    | insn => rfl

/-- A label that is placed does not stand before all nodes. -/
theorem Lays.label_ge {label : Label} (lays : Lays first entries nodes before after)
    (among : .label label ∈ nodes) :
    ∃ offset, after.labels[label]? = some offset ∧ before.size ≤ offset := by
  induction lays with
  | done => cases among
  | @more node nodes before middle after one rest ih =>
    have grows : before.size ≤ middle.size := (Lays.more one (.done middle)).size_le
    by_cases again : .label label ∈ nodes
    · obtain ⟨offset, known, beyond⟩ := ih again
      exact ⟨offset, known, Nat.le_trans grows beyond⟩
    · rcases List.mem_cons.1 among with rfl | later
      · cases one
        refine ⟨before.size, ?_, Nat.le_refl _⟩
        rw [rest.label_kept again, Std.TreeMap.getElem?_insert,
          if_pos (Std.compare_eq_iff_eq.2 rfl)]
      · exact absurd later again

/-- A label has the offset at which what follows it for the last time is laid out. -/
theorem Lays.label_offset {early late : List Node} {label : Label}
    (lays : Lays first entries (early ++ .label label :: late) before after)
    (last : .label label ∉ late) :
    ∃ middle, Lays first entries early before middle ∧
      Lays first entries late { middle with labels := middle.labels.insert label middle.size } after ∧
      after.labels[label]? = some middle.size := by
  obtain ⟨middle, start, one | ⟨one, rest⟩⟩ := lays.append_inv
  cases one
  refine ⟨middle, start, rest, ?_⟩
  rw [rest.label_kept last, Std.TreeMap.getElem?_insert, if_pos (Std.compare_eq_iff_eq.2 rfl)]

/-! ## The rows of a layout -/

/-- Rows of pieces, each where the one before it ends. -/
inductive Rows : Nat → List (Nat × List Piece) → Nat → Prop
  | nil (offset : Nat) : Rows offset [] offset
  | cons {offset stop : Nat} {pieces : List Piece} {rows : List (Nat × List Piece)}
      (rest : Rows (offset + sizeOf pieces) rows stop) :
      Rows offset ((offset, pieces) :: rows) stop

/-- The first row, or else the end, is where the rows begin. -/
theorem Rows.head {offset stop : Nat} {rows : List (Nat × List Piece)}
    (consecutive : Rows offset rows stop) : (rows.map Prod.fst ++ [stop])[0]? = some offset := by
  cases consecutive with
  | nil => rfl
  | cons => rfl

/-- The row spells the instruction, if anything can. -/
def Spells (first entries : Entries) (insn : Instruction) (row : Nat × List Piece) : Prop :=
  insn.WellFormed first → insn.SpelledBy entries row.1 row.2

theorem Lays.rows (lays : Lays first entries nodes before after) :
    ∃ rows, after.placed = rows.reverse ++ before.placed ∧ Rows before.size rows after.size ∧
      List.Forall₂ (Spells first entries) (Snippet.instructions nodes) rows := by
  induction lays with
  | done layout => exact ⟨[], rfl, .nil _, .nil⟩
  | more one rest ih =>
    obtain ⟨rows, placed, consecutive, spells⟩ := ih
    cases one with
    | label => exact ⟨rows, placed, consecutive, spells⟩
    | line => exact ⟨rows, placed, consecutive, spells⟩
    | insn layout _ spelled =>
      refine ⟨_ :: rows, ?_, .cons consecutive, .cons spelled spells⟩
      rw [placed, List.reverse_cons, List.append_assoc]
      rfl

/-! ## The second pass -/

/-- The bytes of rows, each closed at its own offset. -/
inductive Closes (labels : Std.TreeMap Label Nat) : Nat → List (Nat × List Piece) → Bytes → Prop
  | nil (offset : Nat) : Closes labels offset [] []
  | cons {offset : Nat} {pieces : List Piece} {rows : List (Nat × List Piece)} {own rest : Bytes}
      (closed : AssembledCode.closeAll labels offset pieces = .ok own)
      (others : Closes labels (offset + own.length) rows rest) :
      Closes labels offset ((offset, pieces) :: rows) (own ++ rest)

end Layout

namespace AssembledCode

theorem length_close {labels : Std.TreeMap Label Nat} {origin : Nat} {piece : Piece} {bytes : Bytes}
    (closed : close labels origin piece = .ok bytes) : bytes.length = piece.size := by
  cases piece with
  | bytes given =>
    cases closed
    rfl
  | near target =>
    obtain ⟨offset, _, chosen⟩ := Outcome.bind_eq_ok.1 closed
    simp only at chosen
    split at chosen
    · cases chosen
      rfl
    · cases chosen
  | far target =>
    obtain ⟨offset, _, chosen⟩ := Outcome.bind_eq_ok.1 closed
    cases chosen
    rfl

theorem length_closeAll {labels : Std.TreeMap Label Nat} {origin : Nat} :
    ∀ {pieces : List Piece} {bytes : Bytes}, closeAll labels origin pieces = .ok bytes →
      bytes.length = Layout.sizeOf pieces
  | [], _, closed => by
    rw [closeAll_nil_eq_ok.1 closed]
    rfl
  | piece :: pieces, _, closed => by
    obtain ⟨own, rest, one, others, rfl⟩ := closeAll_cons_eq_ok.1 closed
    rw [List.length_append, length_close one, length_closeAll others]
    rfl

end AssembledCode

namespace Layout

/-- The bytes of a row stand at its offset. -/
theorem Closes.row {labels : Std.TreeMap Label Nat} {offset : Nat} {rows : List (Nat × List Piece)}
    {bytes : Bytes} (closes : Closes labels offset rows bytes) {row : Nat × List Piece}
    (among : row ∈ rows) :
    ∃ before own after, AssembledCode.closeAll labels row.1 row.2 = .ok own ∧
      bytes = before ++ (own ++ after) ∧ row.1 = offset + before.length := by
  induction closes with
  | nil => cases among
  | @cons offset pieces rows own rest closed others ih =>
    rcases List.mem_cons.1 among with rfl | later
    · exact ⟨[], own, rest, closed, rfl, rfl⟩
    · obtain ⟨before, part, after, closed', rfl, at_⟩ := ih later
      refine ⟨own ++ before, part, after, closed', (List.append_assoc _ _ _).symm, ?_⟩
      rw [at_, List.length_append, Nat.add_assoc]

theorem closes_of_mapM {labels : Std.TreeMap Label Nat} : ∀ {rows : List (Nat × List Piece)}
    {parts : List Bytes} {offset stop : Nat}, Rows offset rows stop →
    rows.mapM (fun (origin, pieces) => AssembledCode.closeAll labels origin pieces) = .ok parts →
    Closes labels offset rows parts.flatten ∧ offset + parts.flatten.length = stop
  | [], _, _, _, .nil _, written => by
    cases written
    exact ⟨.nil _, rfl⟩
  | (_, pieces) :: rows, parts, offset, stop, .cons consecutive, written => by
    rw [List.mapM_cons] at written
    obtain ⟨own, closed, written⟩ := Outcome.bind_eq_ok.1 written
    obtain ⟨others, rest, same⟩ := Outcome.bind_eq_ok.1 written
    cases same
    have size := AssembledCode.length_closeAll closed
    rw [← size] at consecutive
    obtain ⟨closes, stops⟩ := closes_of_mapM consecutive rest
    refine ⟨.cons closed closes, ?_⟩
    rw [List.flatten_cons, List.length_append]
    omega

/-- The offsets of the instructions, first to last. -/
def offsets (layout : Layout) : List Nat := layout.placed.reverse.map Prod.fst

/-- Every instruction takes room, so its offset lies before what comes behind it. -/
theorem Lays.rising {first entries : Entries} {nodes : List Node} {before after : Layout}
    (lays : Lays first entries nodes before after)
    (rising : (before.offsets ++ [before.size]).Pairwise (· < ·)) :
    (after.offsets ++ [after.size]).Pairwise (· < ·) := by
  induction lays with
  | done => exact rising
  | @more node nodes before middle after one _ ih =>
    refine ih ?_
    cases one with
    | label | line => exact rising
    | insn _ filled _ =>
      have last : ∀ offset ∈ before.offsets ++ [before.size], offset ≤ before.size := by
        intro offset among
        rcases List.mem_append.1 among with early | here
        · exact Nat.le_of_lt ((List.pairwise_append.1 rising).2.2 offset early _ List.mem_cons_self)
        · exact Nat.le_of_eq (List.mem_singleton.1 here)
      rw [offsets, List.reverse_cons, List.map_append]
      refine List.pairwise_append.2 ⟨rising, List.pairwise_singleton _ _, fun offset among => ?_⟩
      exact List.forall_mem_singleton.2
        (Nat.lt_of_le_of_lt (last offset among) (Nat.lt_add_of_pos_right filled))

/-- Both passes over `nodes` went well and gave `assembled`. -/
structure Assembles (first entries : Entries) (nodes : List Node) (layout : Layout)
    (assembled : AssembledCode) : Prop where
  lays : Lays first entries nodes empty layout
  spells : List.Forall₂ (Spells first entries) (Snippet.instructions nodes) layout.placed.reverse
  closes : Closes layout.labels 0 layout.placed.reverse assembled.code
  size : assembled.code.length = layout.size
  small : layout.size ≤ 0xFFFF
  labels : assembled.labels = layout.labels
  lines : assembled.lines = layout.lines.reverse

end Layout

theorem assemble_eq_ok {pool after : ConstantPool} (sound : pool.Sound) {nodes : List Node}
    {assembled : AssembledCode} (done : assemble nodes pool = (.ok assembled, after)) :
    ∃ layout, nodes.foldlM Layout.add Layout.empty pool = (.ok layout, after) ∧
      layout.Assembles pool.entries after.entries nodes assembled := by
  have leads := Layout.foldlM_add_leads nodes Layout.empty sound (.refl pool.entries)
  rw [assemble, Interning.bind_run] at done
  match run : nodes.foldlM Layout.add Layout.empty pool with
  | (.error cause, middle) =>
    rw [run] at done
    cases done
  | (.ok layout, middle) =>
    have lays := leads.2 layout (by rw [run])
    simp only [run] at done lays
    by_cases large : 0xFFFF < layout.size
    · rw [if_pos large] at done
      cases done
    · rw [if_neg large] at done
      -- Closing the targets takes nothing from the pool and adds nothing to it.
      replace done : (match layout.code with
        | .ok code => (.ok ⟨code, layout.labels, layout.lines.reverse⟩, middle)
        | .error cause => (.error cause, middle) : Except WriteError AssembledCode × ConstantPool) =
          (.ok assembled, after) := by
        rw [← done]
        cases layout.code <;> rfl
      split at done
      · rename_i code closed
        cases done
        obtain ⟨parts, written, same⟩ := Outcome.bind_eq_ok.1 closed
        cases same
        obtain ⟨rows, placed, consecutive, spells⟩ := lays.rows
        -- The layout began with no rows, so those of the nodes are all there are.
        have whole : layout.placed.reverse = rows := by
          rw [placed, List.reverse_append, List.reverse_reverse]
          rfl
        rw [← whole] at consecutive spells
        obtain ⟨closes, stops⟩ := Layout.closes_of_mapM consecutive written
        have size : parts.flatten.length = layout.size := (Nat.zero_add _).symm.trans stops
        exact ⟨layout, rfl, lays, spells, closes, size, Nat.not_lt.1 large, rfl, rfl⟩
      · cases done

/-! ## Reading it back -/

namespace Decode

/-- Bytes from an offset on that are read as instructions, each at its offset. -/
inductive Tells (entries : Entries) (length : Nat) : Nat → Bytes → List (Nat × Instruction) → Prop
  | nil (offset : Nat) : Tells entries length offset [] []
  | cons {offset : Nat} {own rest : Bytes} {insn : Instruction} {items : List (Nat × Instruction)}
      (reads : Reads (instruction entries length) offset own (offset, insn))
      (others : Tells entries length (offset + own.length) rest items) :
      Tells entries length offset (own ++ rest) ((offset, insn) :: items)

/-- An instruction takes at least its opcode. -/
theorem length_pos_of_reads {entries : Entries} {length offset : Nat} {own : Bytes}
    {item : Nat × Instruction} (reads : Reads (instruction entries length) offset own item) :
    0 < own.length := by
  cases own with
  | nil =>
    have nothing := reads []
    cases nothing
  | cons => exact Nat.succ_pos _

theorem Tells.upToEnd {entries : Entries} {length offset : Nat} {bytes : Bytes}
    {items : List (Nat × Instruction)} (tells : Tells entries length offset bytes items) :
    ∀ (fuel : Nat) (found : List (Nat × Instruction)), bytes.length < fuel →
      Decode.upToEnd entries length fuel found ⟨offset, bytes⟩ = .ok (found.reverse ++ items) := by
  induction tells with
  | nil offset =>
    intro fuel found enough
    cases fuel with
    | zero => omega
    | succ fuel => simp [Decode.upToEnd]
  | @cons offset own rest insn items reads others ih =>
    intro fuel found enough
    have some := length_pos_of_reads reads
    rw [List.length_append] at enough
    cases fuel with
    | zero => omega
    | succ fuel =>
      have filled : (own ++ rest).isEmpty = false := by
        cases own with
        | nil => simp at some
        | cons => rfl
      rw [Decode.upToEnd, filled, if_neg Bool.false_ne_true, reads rest]
      simp only
      rw [ih fuel ((offset, insn) :: found) (by omega), List.reverse_cons, List.append_assoc]
      rfl

end Decode

theorem decode_of_tells {entries : Entries} {code : Bytes} {items : List (Nat × Instruction)}
    (tells : Decode.Tells entries code.length 0 code items) : decode entries code = .ok items :=
  tells.upToEnd (code.length + 1) [] (Nat.lt_succ_self _)

namespace Layout

open AssembledCode

/-- Closed rows are read as the instructions they spell. -/
theorem Closes.tells {first entries : Entries} {labels : Std.TreeMap Label Nat} {length : Nat}
    (small : length ≤ 0xFFFF) {offset : Nat} {rows : List (Nat × List Piece)} {bytes : Bytes}
    (closes : Closes labels offset rows bytes) : ∀ {insns : List Instruction},
    List.Forall₂ (Spells first entries) insns rows → offset + bytes.length ≤ length →
    (∀ insn ∈ insns, insn.WellFormed first) →
    (∀ insn ∈ insns, ∀ target ∈ insn.targets, Inside labels length target) →
    ∃ items, Decode.Tells entries length offset bytes items ∧
      items.map Prod.fst = rows.map Prod.fst ∧
      items.map (fun item => item.2.normal) =
        insns.map fun insn => insn.canonical.relabel (landing labels) := by
  induction closes with
  | nil offset =>
    intro insns spells _ _ _
    cases spells
    exact ⟨[], .nil offset, rfl, rfl⟩
  | @cons offset pieces rows own rest closed others ih =>
    intro insns spells room wellFormed inside
    rw [List.length_append] at room
    cases spells with
    | @cons insn _ insns _ spelled spells =>
      obtain ⟨_, found, reads, same⟩ := spelled (wellFormed insn List.mem_cons_self) entries
        (.refl _) labels length own small (by omega) (inside insn List.mem_cons_self) closed
      obtain ⟨items, tells, offsets, insnsRead⟩ := ih spells (by omega)
        (fun other among => wellFormed other (List.mem_cons_of_mem _ among))
        (fun other among => inside other (List.mem_cons_of_mem _ among))
      refine ⟨(offset, found) :: items, .cons reads tells, ?_, ?_⟩
      · rw [List.map_cons, List.map_cons, offsets]
      · rw [List.map_cons, List.map_cons, insnsRead, same]

theorem Assembles.extends_ {first entries later : Entries} {nodes : List Node} {layout : Layout}
    {assembled : AssembledCode} (extends_ : entries.Extends later)
    (assembles : layout.Assembles first entries nodes assembled) :
    layout.Assembles first later nodes assembled :=
  { assembles with
    lays := assembles.lays.extends_ extends_
    spells := assembles.spells.imp fun _ _ spells wellFormed =>
      (spells wellFormed).extends_ extends_ }

/-- Offsets rise, and all of them lie inside the code. -/
theorem Assembles.rising {first entries : Entries} {nodes : List Node} {layout : Layout}
    {assembled : AssembledCode} (assembles : layout.Assembles first entries nodes assembled) :
    (layout.offsets ++ [assembled.code.length]).Pairwise (· < ·) := by
  rw [assembles.size]
  exact assembles.lays.rising (List.pairwise_singleton _ _)

/-- An instruction that was laid out is read at its offset, if its targets lie inside the code. -/
theorem Assembles.reads_placed {first entries : Entries} {nodes : List Node} {layout : Layout}
    {assembled : AssembledCode} (assembles : layout.Assembles first entries nodes assembled)
    {offset : Nat} {pieces : List Piece} (placed : (offset, pieces) ∈ layout.placed.reverse)
    {insn : Instruction} (spelled : insn.SpelledBy entries offset pieces)
    (inside : ∀ target ∈ insn.targets,
      Inside assembled.labels assembled.code.length target) :
    (∀ target ∈ insn.targets, Lands assembled.labels assembled.code.length target) ∧
      ∃ found cursor, Decode.instruction entries assembled.code.length
        ⟨offset, assembled.code.drop offset⟩ = .ok ((offset, found), cursor) ∧
        found.normal = insn.canonical.relabel (landing assembled.labels) := by
  obtain ⟨before, own, rest, closed, whole, at_⟩ := assembles.closes.row placed
  simp only [Nat.zero_add] at at_ closed
  rw [← assembles.labels] at closed
  have room : offset + own.length ≤ assembled.code.length := by
    rw [whole, at_]
    simp only [List.length_append]
    omega
  have short : assembled.code.length ≤ 0xFFFF := assembles.size ▸ assembles.small
  obtain ⟨lands, found, reads, same⟩ := spelled entries (.refl entries) assembled.labels
    assembled.code.length own short room inside closed
  refine ⟨lands, found, ⟨offset + own.length, rest⟩, ?_, same⟩
  have dropped : assembled.code.drop offset = own ++ rest := by
    rw [whole, at_, List.drop_left]
  rw [dropped]
  exact reads rest

/-- Assembled code is read as the instructions it was assembled from. -/
theorem Assembles.decodes {first entries : Entries} {nodes : List Node} {layout : Layout}
    {assembled : AssembledCode} (assembles : layout.Assembles first entries nodes assembled)
    (wellFormed : ∀ insn ∈ Snippet.instructions nodes, insn.WellFormed first)
    (inside : ∀ insn ∈ Snippet.instructions nodes, ∀ target ∈ insn.targets,
      Inside assembled.labels assembled.code.length target) :
    ∃ found, decode entries assembled.code = .ok found ∧ found.map Prod.fst = layout.offsets ∧
      found.map (fun item => item.2.normal) = (Snippet.instructions nodes).map
        fun insn => insn.canonical.relabel (landing assembled.labels) := by
  have small : assembled.code.length ≤ 0xFFFF := assembles.size ▸ assembles.small
  have closes := assembles.closes
  rw [← assembles.labels] at closes
  obtain ⟨found, tells, offsets, insns⟩ := closes.tells small assembles.spells (by omega)
    wellFormed inside
  exact ⟨found, decode_of_tells tells, offsets, insns⟩

theorem Assembles.offsetOf_eq_ok {first entries : Entries} {nodes : List Node} {layout : Layout}
    {assembled : AssembledCode} (assembles : layout.Assembles first entries nodes assembled)
    {label : Label} {offset : Nat} :
    assembled.offsetOf label = .ok offset ↔ layout.labels[label]? = some offset := by
  rw [offsetOf, place, assembles.labels]
  split <;> simp_all

theorem Assembles.lines_eq {first entries : Entries} {nodes : List Node} {layout : Layout}
    {assembled : AssembledCode} (assembles : layout.Assembles first entries nodes assembled) :
    assembled.lines = nodes.filterMap Node.line? :=
  assembles.lines.trans assembles.lays.lines

/-- No label stands past the end of the code. -/
theorem Assembles.offset_le {first entries : Entries} {nodes : List Node} {layout : Layout}
    {assembled : AssembledCode} (assembles : layout.Assembles first entries nodes assembled)
    {label : Label} {offset : Nat} (known : assembled.offsetOf label = .ok offset) :
    offset ≤ assembled.code.length := by
  rw [assembles.size]
  exact assembles.lays.label_le (by simp [empty]) (assembles.offsetOf_eq_ok.1 known)

/-- The offset of a label fits into two bytes. -/
theorem Assembles.offset_small {first entries : Entries} {nodes : List Node} {layout : Layout}
    {assembled : AssembledCode} (assembles : layout.Assembles first entries nodes assembled)
    (label : Label) (offset : Nat) (known : assembled.offsetOf label = .ok offset) :
    offset ≤ 0xFFFF :=
  Nat.le_trans (assembles.offset_le known) (assembles.size ▸ assembles.small)

/-- What is laid out behind `early` has the offset where `early` ends. -/
theorem Lays.offset_at {first entries : Entries} {early late : List Node}
    {middle layout : Layout} (start : Lays first entries early empty middle)
    (rest : Lays first entries late middle layout) :
    (layout.offsets ++ [layout.size])[(Snippet.instructions early).length]? =
      some middle.size := by
  obtain ⟨before, placed, _, spells⟩ := start.rows
  obtain ⟨behind, placedAfter, consecutive, _⟩ := rest.rows
  have split : layout.offsets = before.map Prod.fst ++ behind.map Prod.fst := by
    rw [offsets, placedAfter, placed]
    simp [empty]
  have count : (Snippet.instructions early).length = (before.map Prod.fst).length := by
    rw [List.length_map, spells.length_eq]
  rw [split, List.append_assoc, List.getElem?_append_right (Nat.le_of_eq count.symm), count,
    Nat.sub_self]
  exact consecutive.head

/-- A label has the offset of the first instruction after its last place, or that of the end. -/
theorem Assembles.offset_of_label {first entries : Entries} {early late : List Node} {label : Label}
    {layout : Layout} {assembled : AssembledCode}
    (assembles : layout.Assembles first entries (early ++ .label label :: late) assembled)
    (last : .label label ∉ late) :
    ∃ offset, assembled.offsetOf label = .ok offset ∧
      (layout.offsets ++ [assembled.code.length])[(Snippet.instructions early).length]? =
        some offset := by
  obtain ⟨middle, start, rest, known⟩ := assembles.lays.label_offset last
  refine ⟨middle.size, ?_, ?_⟩
  · rw [offsetOf, assembles.labels, place, known]
  · rw [assembles.size]
    exact start.offset_at (.more (.label label middle) rest)

end Layout

/-- **Assembled code is read back.**  The instructions come at the offsets they were laid out at,
targets as the labels of offsets; every label has the offset of what follows it. -/
theorem decode_assemble {table : Entries} {pool after : ConstantPool}
    (grown : (ConstantPool.ofEntries table).Grown pool) {nodes : List Node}
    {assembled : AssembledCode} (done : assemble nodes pool = (.ok assembled, after))
    (wellFormed : ∀ insn ∈ Snippet.instructions nodes, insn.WellFormed pool.entries)
    (inside : ∀ insn ∈ Snippet.instructions nodes, ∀ target ∈ insn.targets,
      AssembledCode.Inside assembled.labels assembled.code.length target) :
    ∃ layout found, nodes.foldlM Layout.add Layout.empty pool = (.ok layout, after) ∧
      decode after.entries assembled.code = .ok found ∧
      found.map Prod.fst = layout.offsets ∧
      found.map (fun item => item.2.normal) = (Snippet.instructions nodes).map
        (fun insn => insn.canonical.relabel (AssembledCode.landing assembled.labels)) ∧
      ∀ early late label, nodes = early ++ .label label :: late → .label label ∉ late →
        ∃ offset, assembled.offsetOf label = .ok offset ∧
          (layout.offsets ++ [assembled.code.length])[(Snippet.instructions early).length]? =
            some offset := by
  have sound := grown.sound (ConstantPool.ofEntries_sound table)
  obtain ⟨layout, laid, assembles⟩ := assemble_eq_ok sound done
  obtain ⟨found, read, offsets, insns⟩ := assembles.decodes wellFormed inside
  refine ⟨layout, found, laid, read, offsets, insns, ?_⟩
  rintro early late label rfl last
  exact assembles.offset_of_label last

/-- A constant, a switch and jumps both ways. -/
def Sample.loop : List Node :=
  [.label ⟨0x10000⟩, .insn (.ldc Opcode.ldc (.string "again")), .insn (.simple Opcode.pop),
    .insn (.tableSwitch 4 5 ⟨0x10001⟩ [⟨0x10000⟩, ⟨0x10001⟩]),
    .label ⟨0x10001⟩, .insn (.jump Opcode.goto ⟨0x10000⟩)]

theorem decode_assemble_loop : ∃ assembled after,
    assemble Sample.loop (ConstantPool.ofEntries #[]) = (.ok assembled, after) ∧
    ∃ layout found, Sample.loop.foldlM Layout.add Layout.empty (ConstantPool.ofEntries #[]) =
        (.ok layout, after) ∧
      decode after.entries assembled.code = .ok found ∧
      found.map Prod.fst = layout.offsets ∧
      found.map (fun item => item.2.normal) = (Snippet.instructions Sample.loop).map
        (fun insn => insn.canonical.relabel (AssembledCode.landing assembled.labels)) ∧
      ∀ early late label, Sample.loop = early ++ .label label :: late → .label label ∉ late →
        ∃ offset, assembled.offsetOf label = .ok offset ∧
          (layout.offsets ++ [assembled.code.length])[(Snippet.instructions early).length]? =
            some offset := by
  have runs : (match (assemble Sample.loop (ConstantPool.ofEntries #[])).1 with
      | .ok assembled => decide (∀ insn ∈ Snippet.instructions Sample.loop,
          ∀ target ∈ insn.targets,
            AssembledCode.Inside assembled.labels assembled.code.length target)
      | .error _ => false) = true := by decide +kernel
  match run : assemble Sample.loop (ConstantPool.ofEntries #[]) with
  | (.error cause, after) =>
    rw [run] at runs
    cases runs
  | (.ok assembled, after) =>
    rw [run] at runs
    exact ⟨assembled, after, rfl, decode_assemble .refl run (by decide +kernel)
      (of_decide_eq_true runs)⟩

end ClassWeave
