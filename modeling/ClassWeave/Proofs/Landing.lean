/-
# ClassWeave.Proofs.Landing -- where the instructions of a method end up

Once the code of a method is woven with injected code and assembled, each of its
instructions has two places: where its label stands (`Landed.start`), which is where
branches to it go, and where the instruction itself stands (`Landed.place`).  Only code
injected before the instruction lies between the two, and the next instruction starts
behind both.  So the map from old offsets to new ones keeps the order, and a range of
offsets holds what it held (`LandsIn.start_le_place_iff`).
-/
import ClassWeave.Proofs.Assembling
import ClassWeave.Proofs.Decoding
import ClassWeave.Proofs.RewriteTrace

set_option autoImplicit false

namespace ClassWeave

/-! ## Where the instructions of a method land -/

/-- An instruction of a method: the offset it had, that of its label in the new code, and its own. -/
structure Landed where
  offset : Nat
  insn : Instruction
  start : Nat
  place : Nat

def ownInstruction? : Mark × Node → Option Instruction
  | (.own, .insn insn) => some insn
  | _ => none

namespace Woven

variable {length : Nat} {items : List (Nat × Instruction)} {marked : List (Mark × Node)}
  {first entries : Entries} {before after : Layout}

/-- Labels that stand for offsets are those of the method. -/
theorem label_own (woven : Woven length items marked) {label : Label}
    (placed : .label label ∈ marked.map Prod.snd) (old : label.isFresh = false) :
    label = ⟨length⟩ ∨ ∃ item ∈ items, label = ⟨item.1⟩ := by
  have fresh {more : List (Mark × Node)}
      (all : ∀ item ∈ more, ∀ label, item.2 = .label label → label.isFresh = true) :
      .label label ∉ more.map Prod.snd := by
    intro among
    obtain ⟨item, known, same⟩ := List.mem_map.1 among
    rw [all item known label same] at old
    cases old
  induction woven with
  | @last ahead behind injected injected' =>
    simp only [List.map_append, List.map_cons, List.mem_append, List.mem_cons] at placed
    rcases placed with early | same | late
    · exact absurd early (fresh fun item known => (injected item known).2)
    · cases same
      exact .inl rfl
    · exact absurd late (fresh fun item known => (injected' item known).2)
  | @insn offset insn items ahead between rest injected inside _ ih =>
    simp only [List.map_append, List.map_cons, List.mem_append, List.mem_cons] at placed
    rcases placed with early | same | amid | wrong | late
    · exact absurd early (fresh fun item known => (injected item known).2)
    · cases same
      exact .inr ⟨(offset, insn), List.mem_cons_self, rfl⟩
    · exact absurd amid (fresh fun item known => (inside item known).2)
    · cases wrong
    · rcases ih late with last | ⟨item, known, same⟩
      · exact .inl last
      · exact .inr ⟨item, List.mem_cons_of_mem _ known, same⟩

/-- An instruction of the method stands behind its label, with nothing of the method in between. -/
theorem around (woven : Woven length items marked) {offset : Nat} {insn : Instruction}
    (among : (offset, insn) ∈ items) :
    ∃ early between late, marked = early ++ (.own, .label ⟨offset⟩) ::
        (between ++ (.own, .insn insn.normal) :: late) ∧ ∀ item ∈ between, Between item := by
  induction woven with
  | last => cases among
  | @insn first one items ahead between rest _ inside _ ih =>
    rcases List.mem_cons.1 among with same | later
    · cases same
      exact ⟨ahead, between, rest, rfl, inside⟩
    · obtain ⟨early, amid, late, rfl, quiet⟩ := ih later
      refine ⟨ahead ++ (.own, .label ⟨first⟩) :: (between ++ (.own, .insn one.normal) :: early), amid,
        late, ?_, quiet⟩
      simp only [List.append_assoc, List.cons_append]

/-- The instructions are the method's, in order and each once. -/
theorem own_instructions (woven : Woven length items marked) :
    marked.filterMap ownInstruction? = items.map fun item => item.2.normal := by
  have nothing {more : List (Mark × Node)} (all : ∀ item ∈ more, Between item) :
      more.filterMap ownInstruction? = [] := by
    rw [List.filterMap_eq_nil_iff]
    rintro ⟨mark, node⟩ known
    cases mark with
    | injected => rfl
    | own =>
      cases node with
      | insn insn => exact absurd rfl ((all _ known).1 rfl insn)
      | label | line => rfl
  induction woven with
  | last injected injected' =>
    rw [List.filterMap_append, nothing fun item known => (injected item known).between,
      List.filterMap_cons_none rfl, nothing fun item known => (injected' item known).between]
    rfl
  | insn injected inside _ ih =>
    rw [List.filterMap_append, nothing fun item known => (injected item known).between,
      List.filterMap_cons_none rfl, List.filterMap_append, nothing inside, List.nil_append,
      List.nil_append]
    exact congrArg (_ :: ·) ih

end Woven

/-- An instruction with its two places in the code that `marked` is laid out to: its label and
itself, with nothing of the method in between. -/
structure Landed.Stands (first entries : Entries) (marked : List (Mark × Node))
    (before after : Layout) (landed : Landed) : Prop where
  known : after.labels[(⟨landed.offset⟩ : Label)]? = some landed.start
  spelled : ∃ pieces, (landed.place, pieces) ∈ after.placed ∧
    (landed.insn.normal.WellFormed first →
      landed.insn.normal.SpelledBy entries landed.place pieces)
  nodes : ∃ early between late middle reached,
    marked = early ++ (.own, .label ⟨landed.offset⟩) ::
      (between ++ (.own, .insn landed.insn.normal) :: late) ∧
    (∀ item ∈ between, Between item) ∧ middle.size = landed.start ∧
    Layout.Lays first entries (early.map Prod.snd) before middle ∧
    Layout.Lays first entries (((.own, .label ⟨landed.offset⟩) ::
      (between ++ (.own, .insn landed.insn.normal) :: late)).map Prod.snd) middle after ∧
    reached.size = landed.place ∧
    Layout.Lays first entries
      ((early ++ (.own, .label ⟨landed.offset⟩) :: between).map Prod.snd) before reached ∧
    Layout.Lays first entries (((.own, .insn landed.insn.normal) :: late).map Prod.snd)
      reached after
  ordered : landed.start ≤ landed.place
  from_ : before.size ≤ landed.start
  inside : landed.place < after.size

theorem Landed.Stands.behind {first entries : Entries} {more marked : List (Mark × Node)}
    {before middle after : Layout} {landed : Landed}
    (lays : Layout.Lays first entries (more.map Prod.snd) before middle)
    (stands : landed.Stands first entries marked middle after) :
    landed.Stands first entries (more ++ marked) before after := by
  obtain ⟨early, between, late, opened, reached, rfl, inside, start, first, rest, place, second,
    rest'⟩ := stands.nodes
  refine ⟨stands.known, stands.spelled, ⟨more ++ early, between, late, opened, reached, ?_, inside,
    start, ?_, rest, place, ?_, rest'⟩, stands.ordered, Nat.le_trans lays.size_le stands.from_,
    stands.inside⟩
  · rw [List.append_assoc]
  · rw [List.map_append]
    exact lays.append first
  · rw [List.append_assoc, List.map_append]
    exact lays.append second

/-- Woven code lands: every instruction has its two places, each behind those of the instructions
before it, and the label of the end is behind them all. -/
theorem Woven.landed {length : Nat} {items : List (Nat × Instruction)}
    {marked : List (Mark × Node)} (woven : Woven length items marked) {first entries : Entries} :
    ∀ {before after : Layout}, Layout.Lays first entries (marked.map Prod.snd) before after →
    items.Pairwise (fun a b => a.1 < b.1) → (∀ item ∈ items, item.1 < length) →
    length < Label.firstFresh →
    ∃ (landed : List Landed) (stop : Nat), landed.map (fun l => (l.offset, l.insn)) = items ∧
      landed.Pairwise (fun a b => a.place < b.start) ∧
      (∀ l ∈ landed, l.Stands first entries marked before after) ∧
      after.labels[(⟨length⟩ : Label)]? = some stop ∧ before.size ≤ stop ∧
      ∀ l ∈ landed, l.place < stop := by
  -- A label of the method is placed once: the others have other offsets or none.
  have apart {more : List (Mark × Node)} {n : Nat} (old : n < Label.firstFresh)
      (all : ∀ item ∈ more, ∀ label, item.2 = .label label → label.isFresh = true) :
      .label ⟨n⟩ ∉ more.map Prod.snd := by
    intro among
    obtain ⟨item, known, same⟩ := List.mem_map.1 among
    have fresh := all item known _ same
    simp only [Label.isFresh, decide_eq_true_eq] at fresh
    omega
  induction woven with
  | @last ahead behind injected injected' =>
    intro before after lays _ _ small
    rw [List.map_append, List.map_cons] at lays
    obtain ⟨middle, start, rest, known⟩ :=
      lays.label_offset (apart small fun item among => (injected' item among).2)
    exact ⟨[], middle.size, rfl, .nil, by simp, known, start.size_le, by simp⟩
  | @insn offset insn items ahead between rest injected inside others ih =>
    intro before after lays rising within small
    obtain ⟨later, rising⟩ := List.pairwise_cons.1 rising
    have here : offset < length := within (offset, insn) List.mem_cons_self
    rw [List.map_append, List.map_cons] at lays
    have last : .label ⟨offset⟩ ∉
        (between ++ (Mark.own, Node.insn insn.normal) :: rest).map Prod.snd := by
      rw [List.map_append, List.mem_append, List.map_cons, List.mem_cons]
      rintro (amid | wrong | late)
      · exact apart (Nat.lt_trans here small) (fun item among => (inside item among).2) amid
      · cases wrong
      · have old : (⟨offset⟩ : Label).isFresh = false := by
          simp only [Label.isFresh, decide_eq_false_iff_not]
          omega
        rcases others.label_own late old with same | ⟨item, among, same⟩
        · cases same
          omega
        · cases same
          exact Nat.lt_irrefl _ (later item among)
    obtain ⟨middle, start, tail, known⟩ := lays.label_offset last
    rw [List.map_append, List.map_cons] at tail
    obtain ⟨reached, amid, tail⟩ := tail.append_inv
    cases tail with
    | @more _ _ _ placed _ one tail =>
      have opening : Layout.Lays first entries
          ((ahead ++ (Mark.own, Node.label ⟨offset⟩) :: between).map Prod.snd) before reached := by
        rw [List.map_append, List.map_cons]
        exact start.append (.more (.label _ _) amid)
      have whole : Layout.Lays first entries
          ((ahead ++ (Mark.own, Node.label ⟨offset⟩) :: (between ++
            [(Mark.own, Node.insn insn.normal)])).map Prod.snd) before placed := by
        have joined := opening.append (.more one (.done placed))
        simpa using joined
      obtain ⟨landed, stop, listed, follow, stand, ends, beyond, below⟩ :=
        ih tail rising (fun item among => within item (List.mem_cons_of_mem _ among)) small
      have following : Layout.Lays first entries (((Mark.own, Node.label ⟨offset⟩) ::
          (between ++ (Mark.own, Node.insn insn.normal) :: rest)).map Prod.snd) middle after := by
        rw [List.map_cons, List.map_append, List.map_cons]
        exact .more (.label _ _) (amid.append (.more one tail))
      cases one with
      | @insn _ pieces _ filled spelled =>
        have early : before.size ≤ middle.size := start.size_le
        have sizes : middle.size ≤ reached.size := amid.size_le
        have room := tail.size_le
        simp only at room beyond
        refine ⟨⟨offset, insn, middle.size, reached.size⟩ :: landed, stop, ?_, ?_, ?_, ends, ?_, ?_⟩
        · rw [List.map_cons, listed]
        · refine List.pairwise_cons.2 ⟨fun other among => ?_, follow⟩
          have after_ := (stand other among).from_
          simp only at after_ ⊢
          omega
        · refine List.forall_mem_cons.2 ⟨⟨known, ⟨pieces, ?_, spelled⟩, ?_, sizes, ?_, ?_⟩, ?_⟩
          · exact tail.placed_kept List.mem_cons_self
          · exact ⟨ahead, between, rest, middle, reached, rfl, inside, rfl, start, following, rfl,
              opening, .more (.insn reached filled spelled) tail⟩
          · exact early
          · simp only
            omega
          · intro other among
            have stands := (stand other among).behind whole
            simpa using stands
        · omega
        · refine List.forall_mem_cons.2 ⟨?_, below⟩
          simp only
          omega

/-! ## What the instructions are in the new code -/

/-- An instruction of a method in its new code: behind its label with nothing of the method in
between, read back as itself, and its targets the labels of instructions as they stand now. -/
structure Landed.Refines (entries : Entries) (marked : List (Mark × Node)) (layout : Layout)
    (assembled : AssembledCode) (all : List Landed) (landed : Landed) : Prop where
  label : assembled.offsetOf ⟨landed.offset⟩ = .ok landed.start
  ordered : landed.start ≤ landed.place
  nodes : ∃ early between late,
    marked = early ++ (.own, .label ⟨landed.offset⟩) ::
      (between ++ (.own, .insn landed.insn.normal) :: late) ∧
    (∀ item ∈ between, Between item) ∧
    (layout.offsets ++ [assembled.code.length])[(Snippet.instructions
      (early.map Prod.snd)).length]? = some landed.start ∧
    (layout.offsets ++ [assembled.code.length])[(Snippet.instructions
      ((early ++ (.own, .label ⟨landed.offset⟩) :: between).map Prod.snd)).length]? =
        some landed.place
  read : ∃ found cursor, Decode.instruction entries assembled.code.length
      ⟨landed.place, assembled.code.drop landed.place⟩ = .ok ((landed.place, found), cursor) ∧
    found.normal = landed.insn.canonical.relabel (AssembledCode.landing assembled.labels)
  targets : ∀ target ∈ landed.insn.targets, ∃ other ∈ all, target = ⟨other.offset⟩ ∧
    AssembledCode.landing assembled.labels target = ⟨other.start⟩

/-- All instructions of a method in its new code, in order, and where the label of its end is. -/
structure LandsIn (entries : Entries) (items : List (Nat × Instruction)) (length : Nat)
    (marked : List (Mark × Node)) (layout : Layout) (assembled : AssembledCode)
    (landed : List Landed) (stop : Nat) : Prop where
  items : landed.map (fun l => (l.offset, l.insn)) = items
  rising : landed.Pairwise fun a b => a.offset < b.offset
  follow : landed.Pairwise fun a b => a.place < b.start
  refines : ∀ l ∈ landed, l.Refines entries marked layout assembled landed
  inside : ∀ l ∈ landed, l.offset < length
  ends : assembled.offsetOf ⟨length⟩ = .ok stop
  below : ∀ l ∈ landed, l.place < stop
  /-- Offsets of the method that have a place are those of instructions and the end. -/
  labels : ∀ offset place, offset ≤ length → assembled.offsetOf ⟨offset⟩ = .ok place →
    offset = length ∨ ∃ l ∈ landed, offset = l.offset

theorem Woven.lands {length : Nat} {items : List (Nat × Instruction)} {marked : List (Mark × Node)}
    (woven : Woven length items marked) {old first entries : Entries} {layout : Layout}
    {assembled : AssembledCode}
    (assembles : layout.Assembles first entries (marked.map Prod.snd) assembled)
    (decoded : Decode.Rising old length 0 items) (extends_ : old.Extends first)
    (small : length < Label.firstFresh) :
    ∃ landed stop, LandsIn entries items length marked layout assembled landed stop := by
  obtain ⟨landed, stop, listed, follow, stand, ends, _, below⟩ :=
    woven.landed assembles.lays decoded.rising decoded.inside small
  have item {l : Landed} (among : l ∈ landed) : (l.offset, l.insn) ∈ items :=
    listed ▸ List.mem_map_of_mem among
  have labels (offset place : Nat) (within : offset ≤ length)
      (known : layout.labels[(⟨offset⟩ : Label)]? = some place) :
      offset = length ∨ ∃ l ∈ landed, offset = l.offset := by
    have placed : .label ⟨offset⟩ ∈ marked.map Prod.snd := by
      rcases assembles.lays.label_placed (by rw [known]; rfl) with here | nowhere
      · exact here
      · simp [Layout.empty] at nowhere
    have notFresh : (⟨offset⟩ : Label).isFresh = false := by
      simp only [Label.isFresh, decide_eq_false_iff_not]
      omega
    rcases woven.label_own placed notFresh with same | ⟨other, among, same⟩
    · cases same
      exact .inl rfl
    · cases same
      rw [← listed] at among
      obtain ⟨l, one, rfl⟩ := List.mem_map.1 among
      exact .inr ⟨l, one, rfl⟩
  -- A target lies inside the old code, so only an instruction of the method can stand there.
  have target_of {l : Landed} (among : l ∈ landed) {target : Label}
      (leads : target ∈ l.insn.targets) {place : Nat}
      (known : layout.labels[target]? = some place) :
      ∃ other ∈ landed, target = ⟨other.offset⟩ ∧ place = other.start := by
    have within : target.id < length := (decoded.decoded _ (item among)).inside target leads
    rcases labels target.id place (Nat.le_of_lt within) known with same | ⟨other, known', same⟩
    · omega
    · have label : target = ⟨other.offset⟩ := by rw [← same]
      refine ⟨other, known', label, ?_⟩
      have stands := (stand other known').known
      rw [← label, known] at stands
      exact Option.some.inj stands
  refine ⟨landed, stop, listed, ?_, follow, fun l among => ?_, fun l among => decoded.inside _ (item among),
    assembles.offsetOf_eq_ok.2 ends, below, fun offset place within known => labels offset place within
      (assembles.offsetOf_eq_ok.1 known)⟩
  · have rising := decoded.rising
    rw [← listed, List.pairwise_map] at rising
    exact rising
  · have stands := stand l among
    have wellFormed : l.insn.normal.WellFormed first :=
      (decoded.decoded _ (item among)).wellFormed.normal.extends_ extends_
    obtain ⟨pieces, placed, spelled⟩ := stands.spelled
    have inside (target : Label) (leads : target ∈ l.insn.normal.targets) :
        AssembledCode.Inside assembled.labels assembled.code.length target := by
      intro place known
      rw [assembles.labels] at known
      rw [Instruction.targets_normal] at leads
      obtain ⟨other, known', _, rfl⟩ := target_of among leads known
      have ordered := (stand other known').ordered
      have below := (stand other known').inside
      rw [assembles.size]
      omega
    obtain ⟨lands, found, cursor, reads, same⟩ :=
      assembles.reads_placed (List.mem_reverse.2 placed) (spelled wellFormed) inside
    refine ⟨assembles.offsetOf_eq_ok.2 stands.known, stands.ordered, ?_, ?_, ?_⟩
    · obtain ⟨early, between, late, middle, reached, whole, quiet, start, opening, rest, place,
        passing, rest'⟩ := stands.nodes
      refine ⟨early, between, late, whole, quiet, ?_, ?_⟩
      · rw [assembles.size, ← start]
        exact opening.offset_at rest
      · rw [assembles.size, ← place]
        exact passing.offset_at rest'
    · exact ⟨found, cursor, reads, by rw [same, Instruction.canonical_normal]⟩
    · intro target leads
      obtain ⟨place, known, _⟩ := lands target (by rwa [Instruction.targets_normal])
      rw [assembles.labels] at known
      obtain ⟨other, known', same, rfl⟩ := target_of among leads known
      refine ⟨other, known', same, ?_⟩
      simp [AssembledCode.landing, assembles.labels, known]

/-! ## The order of offsets -/

/-- Of two elements of a list in which each stands in a relation to those behind it, one comes
first. -/
theorem trichotomy_of_pairwise {α : Type} {related : α → α → Prop} {list : List α}
    (pairs : list.Pairwise related) {a b : α} (first : a ∈ list) (second : b ∈ list) :
    a = b ∨ related a b ∨ related b a := by
  induction pairs with
  | nil => cases first
  | cons head _ ih =>
    rcases List.mem_cons.1 first with rfl | early
    · rcases List.mem_cons.1 second with rfl | late
      · exact .inl rfl
      · exact .inr (.inl (head _ late))
    · rcases List.mem_cons.1 second with rfl | late
      · exact .inr (.inr (head _ early))
      · exact ih early late

namespace LandsIn

variable {entries : Entries} {items : List (Nat × Instruction)} {length stop : Nat}
  {marked : List (Mark × Node)} {layout : Layout} {assembled : AssembledCode}
  {landed : List Landed}

/-- What comes first stays first. -/
theorem place_lt_start (lands : LandsIn entries items length marked layout assembled landed stop)
    {a b : Landed} (first : a ∈ landed) (second : b ∈ landed) (before : a.offset < b.offset) :
    a.place < b.start := by
  have both := lands.rising.and lands.follow
  rcases trichotomy_of_pairwise both first second with rfl | forward | backward
  · exact absurd before (Nat.lt_irrefl _)
  · exact forward.2
  · exact absurd before (Nat.lt_asymm backward.1)

/-- A boundary lies at or before an instruction exactly if it did. -/
theorem start_le_place_iff (lands : LandsIn entries items length marked layout assembled landed stop)
    {l : Landed} (among : l ∈ landed) {offset place : Nat} (within : offset ≤ length)
    (known : assembled.offsetOf ⟨offset⟩ = .ok place) :
    place ≤ l.place ↔ offset ≤ l.offset := by
  have own := (lands.refines l among).ordered
  rcases lands.labels offset place within known with rfl | ⟨other, among', rfl⟩
  · obtain rfl : stop = place := Except.ok.inj (lands.ends.symm.trans known)
    have inside := lands.inside l among
    have below := lands.below l among
    omega
  · have boundary := lands.refines other among'
    obtain rfl : other.start = place := Except.ok.inj (boundary.label.symm.trans known)
    have ordered := boundary.ordered
    rcases Nat.lt_trichotomy other.offset l.offset with before | same | after
    · have forward := lands.place_lt_start among' among before
      omega
    · rcases trichotomy_of_pairwise lands.rising among' among with rfl | less | less
      · omega
      · omega
      · omega
    · have backward := lands.place_lt_start among among' after
      omega

/-- A range of the method that was not empty is not empty now. -/
theorem range_lt (lands : LandsIn entries items length marked layout assembled landed stop)
    {start end_ : Nat} (filled : start < end_) (within : end_ ≤ length) {first last : Nat}
    (opens : assembled.offsetOf ⟨start⟩ = .ok first) (closes : assembled.offsetOf ⟨end_⟩ = .ok last) :
    first < last := by
  rcases lands.labels start first (by omega) opens with rfl | ⟨l, among, rfl⟩
  · omega
  · have boundary := lands.refines l among
    obtain rfl : l.start = first := Except.ok.inj (boundary.label.symm.trans opens)
    have ordered := boundary.ordered
    have beyond := lands.start_le_place_iff among within closes
    omega

/-- A range of the method that was empty still is. -/
theorem range_le (lands : LandsIn entries items length marked layout assembled landed stop)
    {start end_ : Nat} (empty : end_ ≤ start) (within : start ≤ length) {first last : Nat}
    (opens : assembled.offsetOf ⟨start⟩ = .ok first) (closes : assembled.offsetOf ⟨end_⟩ = .ok last) :
    last ≤ first := by
  rcases Nat.eq_or_lt_of_le empty with rfl | less
  · rw [opens] at closes
    exact Nat.le_of_eq (Except.ok.inj closes).symm
  · exact Nat.le_of_lt (lands.range_lt less within closes opens)

end LandsIn

end ClassWeave
