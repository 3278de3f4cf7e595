/-
# ClassWeave.Proofs.StackMapTable -- the frames that are written, and what is read back

Many frames may be recorded for one offset; the stack map has room for one.
`StackMap.kept` is the list that is written: sorted by offset, and of frames at one offset
the one recorded last (`StackMap.kept_of_recorded`), since sorting keeps the order of equal
ones.

The list is written in full entries, each after the offset of the one before it, and is
read back as it was (`StackMap.Written.read`), with the labels of objects under
construction as the labels of offsets.
-/
import ClassWeave.Proofs.ClassFileRoundTrip
import ClassWeave.Proofs.Assembling
import Mathlib.Data.List.Sort

set_option autoImplicit false

namespace ClassWeave

/-! ## Sorting by a number -/

namespace Sorting

variable {α : Type} (key : α → Nat)

theorem trans (a b c : α) (first : decide (key a ≤ key b) = true)
    (second : decide (key b ≤ key c) = true) : decide (key a ≤ key c) = true := by
  simp only [decide_eq_true_eq] at first second ⊢
  exact Nat.le_trans first second

theorem total (a b : α) : (decide (key a ≤ key b) || decide (key b ≤ key a)) = true := by
  simp only [Bool.or_eq_true, decide_eq_true_eq]
  exact Nat.le_total (key a) (key b)

/-- Sorting keeps the order of what has one number. -/
theorem filter_mergeSort (items : List α) (number : Nat) :
    (items.mergeSort fun a b => decide (key a ≤ key b)).filter (fun item => key item == number) =
      items.filter fun item => key item == number := by
  let sorted := items.mergeSort fun a b => decide (key a ≤ key b)
  have equal : (items.filter fun item => key item == number).Pairwise
      fun a b => decide (key a ≤ key b) = true := by
    refine List.pairwise_of_forall_mem_list fun a first b second => ?_
    have left := (List.mem_filter.1 first).2
    have right := (List.mem_filter.1 second).2
    simp only [beq_iff_eq] at left right
    simp [left, right]
  have within : (items.filter fun item => key item == number).Sublist sorted :=
    List.sublist_mergeSort (trans key) (total key) equal List.filter_sublist
  have same := within.filter fun item => key item == number
  rw [List.filter_filter] at same
  simp only [Bool.and_self] at same
  refine (same.eq_of_length ?_).symm
  exact ((List.mergeSort_perm items _).filter _).length_eq.symm

/-- Sorted lists that agree on what has one number, for each number, are the same. -/
theorem eq_of_filters : ∀ {first second : List α}, first.Pairwise (fun a b => key a ≤ key b) →
    second.Pairwise (fun a b => key a ≤ key b) →
    (∀ number, first.filter (fun item => key item == number) =
      second.filter fun item => key item == number) → first = second
  | [], [], _, _, _ => rfl
  | [], item :: second, _, _, same => by simpa using same (key item)
  | item :: first, [], _, _, same => by simpa using same (key item)
  | a :: first, b :: second, sorted, sorted', same => by
    obtain ⟨least, rest⟩ := List.pairwise_cons.1 sorted
    obtain ⟨least', rest'⟩ := List.pairwise_cons.1 sorted'
    have low {x y : α} {early late : List α} (least : ∀ other ∈ late, key y ≤ key other)
        (agree : (x :: early).filter (fun item => key item == key x) =
          (y :: late).filter fun item => key item == key x) : key y ≤ key x := by
      have among : x ∈ (y :: late).filter fun item => key item == key x := by
        rw [← agree]
        simp
      rcases List.mem_cons.1 (List.mem_filter.1 among).1 with rfl | behind
      · exact Nat.le_refl _
      · exact least x behind
    have number : key a = key b :=
      Nat.le_antisymm (low least (same (key b)).symm) (low least' (same (key a)))
    have head := same (key a)
    rw [List.filter_cons_of_pos (by simp), List.filter_cons_of_pos (by simp [number])] at head
    obtain ⟨rfl, _⟩ := List.cons.inj head
    refine congrArg (a :: ·) (eq_of_filters rest rest' fun other => ?_)
    have tail := same other
    rw [List.filter_cons, List.filter_cons] at tail
    split at tail
    · exact (List.cons.inj tail).2
    · exact tail

/-- Of what has one number, for each of some numbers, there is nothing twice. -/
theorem filter_flatMap_filter {numbers : List Nat} (once : numbers.Nodup) (items : List α)
    (number : Nat) :
    (numbers.flatMap fun other => items.filter fun item => key item == other).filter
        (fun item => key item == number) =
      items.filter fun item => key item == number && decide (key item ∈ numbers) := by
  -- At the number itself its own items are taken, and nothing more is, as it does not come again.
  induction once with
  | nil => simp
  | @cons first numbers apart _ ih =>
    rw [List.flatMap_cons, List.filter_append, ih, List.filter_filter]
    by_cases same : first = number
    · subst same
      have fresh : first ∉ numbers := fun among => apart first among rfl
      have others : items.filter (fun item => key item == first && decide (key item ∈ numbers)) = [] := by
        rw [List.filter_eq_nil_iff]
        rintro item _ both
        simp only [Bool.and_eq_true, beq_iff_eq, decide_eq_true_eq] at both
        exact fresh (both.1 ▸ both.2)
      rw [others, List.append_nil]
      refine List.filter_congr fun item _ => ?_
      by_cases here : key item = first <;> simp [here]
    · have none_ : items.filter (fun item => key item == number && key item == first) = [] := by
        rw [List.filter_eq_nil_iff]
        rintro item _ both
        simp only [Bool.and_eq_true, beq_iff_eq] at both
        exact same (both.2.symm.trans both.1)
      rw [none_, List.nil_append]
      refine List.filter_congr fun item _ => ?_
      by_cases here : key item = number
      · simp [here, Ne.symm same]
      · rw [beq_false_of_ne here, Bool.false_and, Bool.false_and]

/-- What has one number, for each of rising numbers, is all that has one of them, sorted. -/
theorem flatMap_filter {numbers : List Nat} (rising : numbers.Pairwise (· < ·)) (items : List α) :
    numbers.flatMap (fun number => items.filter fun item => key item == number) =
      (items.filter fun item => decide (key item ∈ numbers)).mergeSort
        fun a b => decide (key a ≤ key b) := by
  have one (item : α) (number : Nat) (among : item ∈ items.filter fun item => key item == number) :
      key item = number := by simpa using (List.mem_filter.1 among).2
  refine eq_of_filters key (List.pairwise_flatMap.2 ⟨fun number _ => ?_, ?_⟩) ?_ fun number => ?_
  · refine List.pairwise_of_forall_mem_list fun a first b second => ?_
    exact Nat.le_of_eq ((one a number first).trans (one b number second).symm)
  · refine rising.imp fun {low high} less a first b second => ?_
    rw [one a low first, one b high second]
    exact Nat.le_of_lt less
  · exact (List.pairwise_mergeSort (trans key) (total key) _).imp fun both => by simpa using both
  · rw [filter_mergeSort, List.filter_filter]
    exact filter_flatMap_filter key (rising.imp Nat.ne_of_lt) items number

/-- Sorting by inserting one item after the other comes to the same. -/
theorem mergeSort_eq_insertionSort : ∀ items : List α,
    (items.mergeSort fun a b => decide (key a ≤ key b)) =
      items.insertionSort fun a b => key a ≤ key b
  | [] => List.mergeSort_nil
  | item :: items => by
    obtain ⟨low, high, whole, rest, below⟩ :=
      List.mergeSort_cons (trans key) (total key) item items
    have sorted := List.pairwise_mergeSort (trans key) (total key) (item :: items)
    rw [whole] at sorted
    have above := (List.pairwise_cons.1 (List.pairwise_append.1 sorted).2.1).1
    rw [List.insertionSort_cons, ← mergeSort_eq_insertionSort items, rest, whole]
    clear sorted whole rest
    -- The item is put behind what comes before it, and ahead of what does not.
    induction low with
    | nil =>
      cases high with
      | nil => rfl
      | cons next high =>
        have more := of_decide_eq_true (above next List.mem_cons_self)
        exact (List.orderedInsert_cons_of_le (fun a b => key a ≤ key b) high more).symm
    | cons first low ih =>
      have less := below first List.mem_cons_self
      simp only [Bool.not_eq_true', decide_eq_false_iff_not] at less
      rw [List.cons_append, List.cons_append,
        List.orderedInsert_of_not_le (fun a b => key a ≤ key b) _ less,
        ← ih fun other among => below other (List.mem_cons_of_mem _ among)]

end Sorting

namespace StackMap

/-! ## One frame for each offset -/

/-- The frames that are written, each with its offset. -/
def kept (assembled : AssembledCode) (frames : List PinnedFrame) :
    Except WriteError (List (Nat × PinnedFrame)) :=
  (placed assembled assembled.code.length frames).map fun placed =>
    lastOfEach (placed.mergeSort fun a b => decide (a.1 ≤ b.1))

theorem kept_nil (assembled : AssembledCode) : kept assembled [] = .ok [] := by
  show Except.ok (lastOfEach (([] : List (Nat × PinnedFrame)).mergeSort _)) = _
  rw [List.mergeSort_nil, lastOfEach]
  exact nofun

/-- The frames may as well be sorted by insertion, which can be evaluated. -/
theorem encode_by_insertion (assembled : AssembledCode) (frames : List PinnedFrame) :
    encode assembled frames = (do
      let placed ← ExceptT.mk (pure (placed assembled assembled.code.length frames))
      let kept := lastOfEach (placed.insertionSort fun a b => a.1 ≤ b.1)
      if kept.isEmpty then return none
      return some (Bytes.count kept.length ++ (← encodeFrom assembled 0 [] kept))) := by
  simp only [← Sorting.mergeSort_eq_insertionSort Prod.fst]
  rfl

/-- The last row of an offset is kept. -/
theorem mem_lastOfEach : ∀ {rows early late : List (Nat × PinnedFrame)} {row : Nat × PinnedFrame},
    rows = early ++ row :: late → (∀ other ∈ late, other.1 ≠ row.1) → row ∈ lastOfEach rows
  | [], [], _, _, same, _ | [], _ :: _, _, _, same, _ => by cases same
  | [_], [], _, _, same, _ => by
    cases same
    exact List.mem_singleton.2 rfl
  | [_], [_], _, _, same, _ | [_], _ :: _ :: _, _, _, same, _ => by cases same
  | a :: b :: rest, early, late, row, same, last => by
    rw [lastOfEach]
    cases early with
    | nil =>
      cases same
      rw [if_neg (Ne.symm (last b List.mem_cons_self))]
      exact List.mem_cons_self
    | cons first early =>
      obtain ⟨rfl, tail⟩ := List.cons.inj same
      have later := mem_lastOfEach tail last
      split
      · exact later
      · exact List.mem_cons_of_mem _ later

theorem offsets_trans (a b c : Nat × PinnedFrame) (first : decide (a.1 ≤ b.1) = true)
    (second : decide (b.1 ≤ c.1) = true) : decide (a.1 ≤ c.1) = true :=
  Sorting.trans Prod.fst a b c first second

theorem offsets_total (a b : Nat × PinnedFrame) :
    (decide (a.1 ≤ b.1) || decide (b.1 ≤ a.1)) = true := Sorting.total Prod.fst a b

/-- Sorting by offset keeps the order of what stands at one offset. -/
theorem filter_mergeSort (rows : List (Nat × PinnedFrame)) (offset : Nat) :
    (rows.mergeSort fun a b => decide (a.1 ≤ b.1)).filter (fun row => row.1 == offset) =
      rows.filter fun row => row.1 == offset := Sorting.filter_mergeSort Prod.fst rows offset

/-- Of the rows of an offset the last one is kept. -/
theorem exists_mem_lastOfEach {rows early late : List (Nat × PinnedFrame)} {offset : Nat}
    {frame : PinnedFrame} (split : rows = early ++ (offset, frame) :: late)
    {good : PinnedFrame → Prop} (own : good frame)
    (others : ∀ other ∈ late, other.1 = offset → good other.2) :
    ∃ other, (offset, other) ∈ lastOfEach (rows.mergeSort fun a b => decide (a.1 ≤ b.1)) ∧
      good other := by
  have same := filter_mergeSort rows offset
  have here : rows.filter (fun row => row.1 == offset) =
      early.filter (fun row => row.1 == offset) ++
        (offset, frame) :: late.filter fun row => row.1 == offset := by
    rw [split, List.filter_append, List.filter_cons_of_pos (by simp)]
  -- The last of these rows is good: it is the given one or comes later.
  obtain ⟨first, row, last, good_⟩ : ∃ first row,
      rows.filter (fun row => row.1 == offset) = first ++ [row] ∧ good row.2 := by
    rcases List.eq_nil_or_concat (late.filter fun row => row.1 == offset) with
      none_ | ⟨more, row, some_⟩
    · exact ⟨_, (offset, frame), by rw [here, none_], own⟩
    · refine ⟨early.filter (fun row => row.1 == offset) ++ (offset, frame) :: more, row, ?_, ?_⟩
      · rw [here, some_]
        simp
      · have among : row ∈ late.filter fun row => row.1 == offset := by
          rw [some_]
          simp
        obtain ⟨among, at_⟩ := List.mem_filter.1 among
        exact others row among (by simpa using at_)
  rw [last] at same
  obtain ⟨front, back, whole, _, behind⟩ := List.filter_eq_append_iff.1 same
  obtain ⟨gap, rest, tail, _, at_, none_⟩ := List.filter_eq_cons_iff.1 behind
  have offset_ : row.1 = offset := by simpa using at_
  refine ⟨row.2, ?_, good_⟩
  have kept : row ∈ lastOfEach (rows.mergeSort fun a b => decide (a.1 ≤ b.1)) := by
    have apart : ∀ other ∈ rest, other.1 ≠ row.1 := by
      intro other among
      have other_ := List.filter_eq_nil_iff.1 none_ other among
      rw [offset_]
      simpa using other_
    rw [tail, ← List.append_assoc] at whole
    exact mem_lastOfEach whole apart
  rw [← offset_]
  exact kept

/-- A frame recorded inside the code is kept, or one that was recorded later for the same offset. -/
theorem kept_of_recorded {assembled : AssembledCode} {before after : List PinnedFrame}
    {frame : PinnedFrame} {rows : List (Nat × PinnedFrame)}
    (chosen : kept assembled (before ++ frame :: after) = .ok rows) {offset : Nat}
    (at_ : assembled.offsetOf frame.label = .ok offset) (inside : offset < assembled.code.length)
    {good : PinnedFrame → Prop} (own : good frame)
    (others : ∀ other ∈ after, assembled.offsetOf other.label = .ok offset → good other) :
    ∃ other, (offset, other) ∈ rows ∧ good other := by
  obtain ⟨placed_, done, rfl⟩ := Outcome.map_eq_ok.1 chosen
  obtain ⟨all, found, same⟩ := Outcome.bind_eq_ok.1 done
  cases same
  have each := Outcome.mapM_eq_ok.1 found
  obtain ⟨early, _, rfl, _, onwards⟩ := Outcome.forall₂_append_left each
  cases onwards with
  | @cons _ row _ late one rest =>
    obtain ⟨place, known, same⟩ := Outcome.bind_eq_ok.1 one
    cases same
    obtain rfl : offset = place := Except.ok.inj (at_.symm.trans known)
    have split {inside? : Nat × PinnedFrame → Bool} (stays : inside? (offset, frame) = true) :
        (early ++ (offset, frame) :: late).filter inside? =
          early.filter inside? ++ (offset, frame) :: late.filter inside? := by
      rw [List.filter_append, List.filter_cons_of_pos stays]
    refine exists_mem_lastOfEach (split (decide_eq_true inside)) own fun other among here => ?_
    obtain ⟨origin, known', done⟩ :=
      Outcome.exists_of_forall₂ rest other (List.mem_filter.1 among).1
    obtain ⟨place', found', same⟩ := Outcome.bind_eq_ok.1 done
    cases same
    exact others origin known' (here ▸ found')

theorem lastOfEach_sublist : ∀ rows : List (Nat × PinnedFrame), (lastOfEach rows).Sublist rows
  | [] => .slnil
  | [_] => .refl _
  | a :: b :: rest => by
    have others := lastOfEach_sublist (b :: rest)
    rw [lastOfEach]
    split
    · exact others.cons a
    · exact others.cons_cons a

theorem lastOfEach_rising : ∀ {rows : List (Nat × PinnedFrame)},
    rows.Pairwise (fun a b => a.1 ≤ b.1) → (lastOfEach rows).Pairwise fun a b => a.1 < b.1
  | [], _ => .nil
  | [_], _ => List.pairwise_singleton _ _
  | a :: b :: rest, sorted => by
    obtain ⟨first, others⟩ := List.pairwise_cons.1 sorted
    have rising := lastOfEach_rising others
    rw [lastOfEach]
    split
    · exact rising
    · rename_i apart
      refine List.pairwise_cons.2 ⟨fun row among => ?_, rising⟩
      have next : a.1 ≤ b.1 := first b List.mem_cons_self
      rcases List.mem_cons.1 ((lastOfEach_sublist _).subset among) with rfl | later
      · omega
      · have beyond := (List.pairwise_cons.1 others).1 row later
        omega

/-- Rows at rising offsets are all kept, as they are. -/
theorem lastOfEach_of_rising : ∀ {rows : List (Nat × PinnedFrame)},
    rows.Pairwise (fun a b => a.1 < b.1) → lastOfEach rows = rows
  | [], _ => by rw [lastOfEach]; exact nofun
  | [_], _ => by rw [lastOfEach]; exact nofun
  | a :: b :: rest, rising => by
    obtain ⟨first, others⟩ := List.pairwise_cons.1 rising
    have apart : a.1 ≠ b.1 := Nat.ne_of_lt (first b List.mem_cons_self)
    rw [lastOfEach, if_neg apart, lastOfEach_of_rising others]

/-- What is written are frames that were recorded. -/
theorem mem_of_kept {assembled : AssembledCode} {frames : List PinnedFrame}
    {rows : List (Nat × PinnedFrame)} (chosen : kept assembled frames = .ok rows) :
    ∀ row ∈ rows, row.2 ∈ frames := by
  obtain ⟨placed_, done, rfl⟩ := Outcome.map_eq_ok.1 chosen
  intro row among
  have given := List.mem_mergeSort.1 ((lastOfEach_sublist _).subset among)
  obtain ⟨all, found, same⟩ := Outcome.bind_eq_ok.1 done
  cases same
  obtain ⟨frame, known, one⟩ := Outcome.exists_of_forall₂ (Outcome.mapM_eq_ok.1 found) row
    (List.mem_filter.1 given).1
  obtain ⟨_, _, same⟩ := Outcome.bind_eq_ok.1 one
  cases same
  exact known

/-- The frames that are written stand inside the code, at rising offsets. -/
theorem kept_rising {assembled : AssembledCode} {frames : List PinnedFrame}
    {rows : List (Nat × PinnedFrame)} (chosen : kept assembled frames = .ok rows) :
    rows.Pairwise (fun a b => a.1 < b.1) ∧ ∀ row ∈ rows, row.1 < assembled.code.length := by
  obtain ⟨placed_, done, rfl⟩ := Outcome.map_eq_ok.1 chosen
  have sorted : (placed_.mergeSort fun a b => decide (a.1 ≤ b.1)).Pairwise
      fun a b => decide (a.1 ≤ b.1) = true :=
    List.pairwise_mergeSort offsets_trans offsets_total placed_
  refine ⟨lastOfEach_rising (sorted.imp fun both => by simpa using both), fun row among => ?_⟩
  have given := List.mem_mergeSort.1 ((lastOfEach_sublist _).subset among)
  obtain ⟨all, _, same⟩ := Outcome.bind_eq_ok.1 done
  cases same
  simpa using (List.mem_filter.1 given).2

end StackMap

/-! ## Types of slots -/

namespace SlotEntry

def write : SlotEntry → Bytes
  | top => [0]
  | int => [1]
  | float => [2]
  | double => [3]
  | long => [4]
  | null => [5]
  | uninitializedThis => [6]
  | object index => 7 :: Bytes.u2 index
  | uninitialized offset => 8 :: Bytes.u2 offset

theorem reads_write (slot : SlotEntry) (origin : Nat) : Reads read origin slot.write slot := by
  cases slot with
  | object index => exact (Reads.u1 7 origin).bind ((Reads.u2 index _).map object)
  | uninitialized offset => exact (Reads.u1 8 origin).bind ((Reads.u2 offset _).map uninitialized)
  | _ => exact fun _ => rfl

/-- The entry stands for the type, its label as that of an offset. -/
def Stands (assembled : AssembledCode) (entries : Entries) (slot : SlotEntry) (type : FrameType) :
    Prop :=
  slot.resolve entries = .ok (type.relabel (AssembledCode.landing assembled.labels))

theorem Stands.extends_ {assembled : AssembledCode} {entries later : Entries} {slot : SlotEntry}
    {type : FrameType} (extends_ : entries.Extends later) (stands : slot.Stands assembled entries type) :
    slot.Stands assembled later type := by
  cases slot with
  | object index =>
    obtain ⟨name, found, same⟩ := Outcome.bind_eq_ok.1 stands
    have found' := extends_.className? ((Entries.className_eq_ok _ _ _).1 found)
    exact Outcome.bind_eq_ok.2 ⟨name, (Entries.className_eq_ok _ _ _).2 found', same⟩
  | _ => exact stands

end SlotEntry

section Encoding

variable {assembled : AssembledCode}
  (small : ∀ label offset, assembled.offsetOf label = .ok offset → offset ≤ 0xFFFF)

include small

theorem FrameType.encode_leads {pool : ConstantPool} (sound : pool.Sound) (type : FrameType) :
    Interning.Leads (type.encode assembled) pool fun bytes after =>
      ∃ slot : SlotEntry, bytes = slot.write ∧ slot.Stands assembled after.entries type := by
  cases type with
  | top => exact .pure ⟨.top, rfl, rfl⟩
  | int => exact .pure ⟨.int, rfl, rfl⟩
  | float => exact .pure ⟨.float, rfl, rfl⟩
  | long => exact .pure ⟨.long, rfl, rfl⟩
  | double => exact .pure ⟨.double, rfl, rfl⟩
  | null => exact .pure ⟨.null, rfl, rfl⟩
  | uninitializedThis => exact .pure ⟨.uninitializedThis, rfl, rfl⟩
  | object name =>
    refine (Interning.className_leads sound name).bind fun index after _ holds => ?_
    have found := (ConstantPool.holds_class _ _ _).1 holds
    refine .pure ⟨.object index, rfl, ?_⟩
    exact Outcome.bind_eq_ok.2 ⟨name, (Entries.className_eq_ok _ _ _).2 found, rfl⟩
  | uninitialized site =>
    refine (Interning.Leads.lift _).bind fun offset after _ ⟨known, _⟩ => ?_
    refine .pure ⟨.uninitialized (UInt16.ofNat offset), rfl, ?_⟩
    have few := small site offset known
    have number : (UInt16.ofNat offset).toNat = offset := by
      simp only [UInt16.toNat_ofNat']
      omega
    -- What is written for the site is the offset of its label, and that is its new name.
    have lands : AssembledCode.landing assembled.labels site = ⟨offset⟩ := by
      rw [AssembledCode.offsetOf, AssembledCode.place] at known
      rw [AssembledCode.landing]
      split at known
      · rename_i place found
        cases known
        rw [found]
        rfl
      · cases known
    rw [SlotEntry.Stands, SlotEntry.resolve, number, FrameType.relabel, lands]

theorem StackMap.encodeTypes_leads {pool : ConstantPool} (sound : pool.Sound)
    (types : List FrameType) :
    Interning.Leads (StackMap.encodeTypes assembled types) pool fun bytes after =>
      ∃ slots : List SlotEntry, bytes = Bytes.count slots.length ++ slots.flatMap SlotEntry.write ∧
        List.Forall₂ (SlotEntry.Stands assembled after.entries) slots types := by
  refine (Interning.Leads.mapM (fun type pool sound => FrameType.encode_leads small sound type)
    (fun type bytes before after grown ⟨slot, same, stands⟩ =>
      ⟨slot, same, stands.extends_ grown.extends_⟩) types sound).bind
        fun parts after _ each => .pure ?_
  have slots : ∃ slots : List SlotEntry, parts.flatten = slots.flatMap SlotEntry.write ∧
      List.Forall₂ (SlotEntry.Stands assembled after.entries) slots types := by
    induction each with
    | nil => exact ⟨[], rfl, .nil⟩
    | cons one _ ih =>
      obtain ⟨slot, rfl, stands⟩ := one
      obtain ⟨slots, same, others⟩ := ih
      exact ⟨slot :: slots, by rw [List.flatten_cons, same]; rfl, .cons stands others⟩
  obtain ⟨slots, same, stands⟩ := slots
  exact ⟨slots, by rw [same, stands.length_eq], stands⟩

end Encoding

/-! ## Whole tables -/

namespace StackMapEntry

/-- The bytes of an entry in full; no other form is written. -/
def write : StackMapEntry → Bytes
  | full delta locals stack =>
    255 :: (Bytes.u2 delta ++ (Bytes.count locals.length ++ locals.flatMap SlotEntry.write)
      ++ (Bytes.count stack.length ++ stack.flatMap SlotEntry.write))
  | _ => []

/-- An entry in full whose numbers of locals and of values fit the two bytes they have. -/
def Fits : StackMapEntry → Prop
  | full _ locals stack => locals.length < 0x10000 ∧ stack.length < 0x10000
  | _ => False

theorem reads_write {entry : StackMapEntry} (fits : entry.Fits) (origin : Nat) :
    Reads read origin entry.write entry := by
  cases entry with
  | full delta locals stack =>
    have types {slots : List SlotEntry} (few : slots.length < 0x10000) (place : Nat) :=
      Reads.table slots place few fun slot _ => slot.reads_write
    rw [write, List.append_assoc]
    exact (Reads.u1 255 origin).bind ((Reads.u2 delta _).bind
      ((types fits.1 _).bind ((types fits.2 _).map (full delta locals))))
  | _ => exact fits.elim

def isFull : StackMapEntry → Bool
  | full .. => true
  | _ => false

/-- An entry in full that is read has its numbers from two bytes each. -/
theorem read_fits : Yields read fun entry => entry.isFull = true → entry.Fits := by
  have other {entry : StackMapEntry} (lean : entry.isFull = false) :
      entry.isFull = true → entry.Fits := fun whole => by simp [lean] at whole
  refine (Yields.any _).bind fun tag _ => .ite (.pure (other rfl)) ?_
  refine .ite (.map fun _ => other rfl) (.ite (.fail _) ?_)
  refine (Yields.any _).bind fun delta _ => .ite (.map fun _ => other rfl) ?_
  refine .ite (.pure (other rfl)) (.ite (.pure (other rfl)) ?_)
  refine .ite (.map fun _ => other rfl) ?_
  refine (Yields.table (Yields.any SlotEntry.read)).bind fun locals few => ?_
  exact (Yields.table (Yields.any SlotEntry.read)).bind fun stack few' =>
    .pure fun _ => ⟨few.1, few'.1⟩

variable {entries : Entries}

/-- A stack is as high as an entry in full can say, or it has one value or none. -/
theorem apply_stack_lt {entry : StackMapEntry} {locals : List FrameType}
    {frame : List FrameType × List FrameType} (fits : entry.isFull = true → entry.Fits)
    (applied : entry.apply entries locals = .ok frame) : frame.2.length < 0x10000 := by
  cases entry with
  | same | sameExtended | chop =>
    cases applied
    exact Nat.zero_lt_succ _
  | sameOne | sameOneExtended =>
    obtain ⟨type, _, same⟩ := Outcome.bind_eq_ok.1 applied
    cases same
    exact Nat.succ_lt_succ (Nat.zero_lt_succ _)
  | append =>
    obtain ⟨types, _, same⟩ := Outcome.bind_eq_ok.1 applied
    cases same
    exact Nat.zero_lt_succ _
  | full _ _ stack =>
    obtain ⟨_, _, onwards⟩ := Outcome.bind_eq_ok.1 applied
    obtain ⟨types, resolved, same⟩ := Outcome.bind_eq_ok.1 onwards
    cases same
    rw [← (Outcome.mapM_eq_ok.1 resolved).length_eq]
    exact (fits rfl).2

/-- Frames come at rising offsets. -/
theorem expandFrom_rising : ∀ {table : List StackMapEntry} {next : Nat} {locals : List FrameType}
    {found frames : List PinnedFrame}, (∀ entry ∈ table, entry.isFull = true → entry.Fits) →
    expandFrom entries next locals found table = .ok frames →
    ∃ more, frames = found.reverse ++ more ∧ more.Pairwise (fun a b => a.label.id < b.label.id) ∧
      ∀ frame ∈ more, next ≤ frame.label.id ∧ frame.stack.length < 0x10000
  | [], _, _, found, _, _, expanded => by
    cases expanded
    exact ⟨[], (List.append_nil _).symm, .nil, List.forall_mem_nil _⟩
  | entry :: table, next, locals, found, frames, fits, expanded => by
    obtain ⟨⟨locals', stack⟩, applied, rest⟩ := Outcome.bind_eq_ok.1 expanded
    obtain ⟨own, others⟩ := List.forall_mem_cons.1 fits
    obtain ⟨more, rfl, rising, beyond⟩ := expandFrom_rising others rest
    refine ⟨⟨⟨next + entry.delta.toNat⟩, locals', stack⟩ :: more, by simp, ?_, ?_⟩
    · exact List.pairwise_cons.2 ⟨fun frame among => (beyond frame among).1, rising⟩
    · refine List.forall_mem_cons.2 ⟨⟨Nat.le_add_right _ _, apply_stack_lt own applied⟩, ?_⟩
      intro frame among
      have := beyond frame among
      omega

end StackMapEntry

namespace StackMap

/-- Entries in full for frames at rising offsets, the first of which stands at `next` at the
earliest. -/
inductive Tells (assembled : AssembledCode) (entries : Entries) :
    Nat → List (Nat × PinnedFrame) → List StackMapEntry → Prop
  | nil (next : Nat) : Tells assembled entries next [] []
  | cons {next offset : Nat} {frame : PinnedFrame} {rows : List (Nat × PinnedFrame)}
      {locals stack : List SlotEntry} {more : List StackMapEntry}
      (locals_ : List.Forall₂ (SlotEntry.Stands assembled entries) locals frame.locals)
      (stack_ : List.Forall₂ (SlotEntry.Stands assembled entries) stack frame.stack)
      (rest : Tells assembled entries (offset + 1) rows more) :
      Tells assembled entries next ((offset, frame) :: rows)
        (.full (UInt16.ofNat (offset - next)) locals stack :: more)

variable {assembled : AssembledCode} {entries later : Entries} {next : Nat}
  {rows : List (Nat × PinnedFrame)} {table : List StackMapEntry}

theorem Tells.extends_ (extends_ : entries.Extends later)
    (tells : Tells assembled entries next rows table) : Tells assembled later next rows table := by
  induction tells with
  | nil next => exact .nil next
  | cons locals_ stack_ _ ih =>
    exact .cons (locals_.imp fun _ _ stands => stands.extends_ extends_)
      (stack_.imp fun _ _ stands => stands.extends_ extends_) ih

theorem Tells.length_eq (tells : Tells assembled entries next rows table) :
    table.length = rows.length := by
  induction tells with
  | nil => rfl
  | cons _ _ _ ih => rw [List.length_cons, List.length_cons, ih]

theorem encodeFrom_leads
    (small : ∀ label offset, assembled.offsetOf label = .ok offset → offset ≤ 0xFFFF) :
    ∀ (rows : List (Nat × PinnedFrame)) (next : Nat) (found : List Bytes) {pool : ConstantPool},
    pool.Sound → Interning.Leads (encodeFrom assembled next found rows) pool fun bytes after =>
      ∃ table, bytes = found.reverse.flatten ++ table.flatMap StackMapEntry.write ∧
        Tells assembled after.entries next rows table
  | [], next, found, pool, _ => .pure ⟨[], (List.append_nil _).symm, .nil next⟩
  | (offset, frame) :: rows, next, found, pool, sound => by
    have one : Interning.Leads (encodeFrame assembled (offset - next) frame) pool fun bytes after =>
        ∃ locals stack : List SlotEntry,
          bytes = (StackMapEntry.full (UInt16.ofNat (offset - next)) locals stack).write ∧
          List.Forall₂ (SlotEntry.Stands assembled after.entries) locals frame.locals ∧
          List.Forall₂ (SlotEntry.Stands assembled after.entries) stack frame.stack := by
      refine (encodeTypes_leads small sound frame.locals).bind
        fun first middle grown ⟨locals, same, stand⟩ => ?_
      refine (encodeTypes_leads small (grown.sound sound) frame.stack).bind
        fun second after grown' ⟨stack, same', stand'⟩ => .pure ⟨locals, stack, ?_, ?_, stand'⟩
      · rw [same, same']
        rfl
      · exact stand.imp fun _ _ stands => stands.extends_ grown'.extends_
    refine one.bind fun bytes middle grown ⟨locals, stack, same, stand, stand'⟩ => ?_
    refine (encodeFrom_leads small rows (offset + 1) (bytes :: found) (grown.sound sound)).mono
      fun all after grown' ⟨table, whole, tells⟩ => ?_
    refine ⟨.full (UInt16.ofNat (offset - next)) locals stack :: table, ?_, .cons ?_ ?_ tells⟩
    · rw [whole, same, List.reverse_cons, List.flatten_append, List.append_assoc,
        List.flatMap_cons]
      simp only [List.flatten_cons, List.flatten_nil, List.append_nil]
    · exact stand.imp fun _ _ stands => stands.extends_ grown'.extends_
    · exact stand'.imp fun _ _ stands => stands.extends_ grown'.extends_

/-- A frame as it is read from the table: at the label of its offset. -/
def told (assembled : AssembledCode) (row : Nat × PinnedFrame) : PinnedFrame :=
  ⟨⟨row.1⟩, row.2.locals.map (FrameType.relabel (AssembledCode.landing assembled.labels)),
    row.2.stack.map (FrameType.relabel (AssembledCode.landing assembled.labels))⟩

theorem mapM_resolve {slots : List SlotEntry} {types : List FrameType}
    (stand : List.Forall₂ (SlotEntry.Stands assembled entries) slots types) :
    slots.mapM (SlotEntry.resolve entries) =
      .ok (types.map (FrameType.relabel (AssembledCode.landing assembled.labels))) := by
  rw [Outcome.mapM_eq_ok, List.forall₂_map_right_iff]
  exact stand

/-- Whole frames come out of the table at the offsets they were written for. -/
theorem Tells.expand (tells : Tells assembled entries next rows table) :
    ∀ (locals : List FrameType) (found : List PinnedFrame),
    rows.Pairwise (fun a b => a.1 < b.1) → (∀ row ∈ rows, next ≤ row.1 ∧ row.1 ≤ 0xFFFF) →
    StackMapEntry.expandFrom entries next locals found table =
      .ok (found.reverse ++ rows.map (told assembled)) := by
  induction tells with
  | nil =>
    intro locals found _ _
    rw [List.map_nil, List.append_nil]
    rfl
  | @cons next offset frame rows _ _ more locals_ stack_ _ ih =>
    intro locals found rising bounds
    obtain ⟨first, others⟩ := List.pairwise_cons.1 rising
    obtain ⟨low, high⟩ := bounds _ List.mem_cons_self
    simp only at low high
    -- Frames are told by the distance from the one before, which is one less than the way between.
    have place : next + (UInt16.ofNat (offset - next)).toNat = offset := by
      simp only [UInt16.toNat_ofNat']
      omega
    have rest := ih (frame.locals.map (FrameType.relabel (AssembledCode.landing assembled.labels)))
      (told assembled (offset, frame) :: found) others fun row among => by
        have beyond := first row among
        have within := bounds row (List.mem_cons_of_mem _ among)
        simp only at beyond
        omega
    rw [StackMapEntry.expandFrom]
    simp only [StackMapEntry.apply, mapM_resolve locals_, mapM_resolve stack_]
    show StackMapEntry.expandFrom entries (next + (UInt16.ofNat (offset - next)).toNat + 1) _
      (⟨⟨next + (UInt16.ofNat (offset - next)).toNat⟩, _, _⟩ :: found) more = _
    rw [place]
    refine rest.trans ?_
    rw [List.reverse_cons, List.append_assoc]
    rfl

/-- The table of a code payload: the frames of `rows`, told in full one after the other. -/
structure Written (assembled : AssembledCode) (entries : Entries)
    (rows : List (Nat × PinnedFrame)) (payload : Bytes) : Prop where
  tells : ∃ table : List StackMapEntry,
    payload = Bytes.count table.length ++ table.flatMap StackMapEntry.write ∧
      Tells assembled entries 0 rows table

theorem Written.extends_ {payload : Bytes} (extends_ : entries.Extends later)
    (written : Written assembled entries rows payload) : Written assembled later rows payload := by
  obtain ⟨table, same, tells⟩ := written.tells
  exact ⟨table, same, tells.extends_ extends_⟩

/-- The frames that are kept stand in the table, if there are any. -/
theorem encode_leads {pool : ConstantPool} (sound : pool.Sound)
    (small : ∀ label offset, assembled.offsetOf label = .ok offset → offset ≤ 0xFFFF)
    (frames : List PinnedFrame) :
    Interning.Leads (encode assembled frames) pool fun payload? after =>
      ∃ rows table, kept assembled frames = .ok rows ∧
        Tells assembled after.entries 0 rows table ∧
        payload? = if table.isEmpty then none
          else some (Bytes.count table.length ++ table.flatMap StackMapEntry.write) := by
  refine (Interning.Leads.lift _).bind fun placed_ middle _ ⟨found, same⟩ => ?_
  subst same
  have chosen : kept assembled frames = .ok (lastOfEach
      (placed_.mergeSort fun a b => decide (a.1 ≤ b.1))) := by
    rw [kept, found]
    rfl
  simp only
  split
  · rename_i empty
    rw [List.isEmpty_iff.1 empty] at chosen
    exact .pure ⟨[], [], chosen, .nil 0, rfl⟩
  · rename_i filled
    refine (encodeFrom_leads small _ 0 [] sound).bind fun bytes after _ ⟨table, whole, tells⟩ => ?_
    refine .pure ⟨_, table, chosen, tells, ?_⟩
    have some_ : table.isEmpty = false := by
      rw [List.isEmpty_eq_false_iff, ← List.length_pos_iff, tells.length_eq, List.length_pos_iff]
      exact fun none_ => filled (List.isEmpty_iff.2 none_)
    rw [some_, if_neg Bool.false_ne_true, whole, tells.length_eq]
    rfl

/-- There is room for as many frames as there are offsets. -/
theorem length_le_of_rising : ∀ {rows : List (Nat × PinnedFrame)} {first stop : Nat},
    rows.Pairwise (fun a b => a.1 < b.1) → (∀ row ∈ rows, first ≤ row.1 ∧ row.1 < stop) →
    rows.length ≤ stop - first
  | [], _, _, _, _ => Nat.zero_le _
  | row :: rows, first, stop, rising, within => by
    obtain ⟨beyond, others⟩ := List.pairwise_cons.1 rising
    have own := within row List.mem_cons_self
    have rest : rows.length ≤ stop - (row.1 + 1) := length_le_of_rising others fun other among =>
      ⟨beyond other among, (within other (List.mem_cons_of_mem _ among)).2⟩
    rw [List.length_cons]
    omega

theorem Tells.fits_iff (tells : Tells assembled entries next rows table) :
    (∀ entry ∈ table, entry.Fits) ↔
      ∀ row ∈ rows, row.2.locals.length < 0x10000 ∧ row.2.stack.length < 0x10000 := by
  induction tells with
  | nil => exact ⟨fun _ => List.forall_mem_nil _, fun _ => List.forall_mem_nil _⟩
  | cons locals_ stack_ _ ih =>
    rw [List.forall_mem_cons, List.forall_mem_cons, ih, StackMapEntry.Fits, locals_.length_eq,
      stack_.length_eq]

theorem Tells.full (tells : Tells assembled entries next rows table) :
    ∀ entry ∈ table, entry.isFull = true := by
  induction tells with
  | nil => exact List.forall_mem_nil _
  | cons _ _ _ ih => exact List.forall_mem_cons.2 ⟨rfl, ih⟩

/-- The table is read back if every frame has no more locals and values than can be counted, and
then only. -/
theorem Tells.read_iff (tells : Tells assembled entries 0 rows table)
    (rising : rows.Pairwise fun a b => a.1 < b.1) (inside : ∀ row ∈ rows, row.1 < 0xFFFF) :
    StackMapEntry.readTable.run
        (Bytes.count table.length ++ table.flatMap StackMapEntry.write) = .ok table ↔
      ∀ row ∈ rows, row.2.locals.length < 0x10000 ∧ row.2.stack.length < 0x10000 := by
  rw [← tells.fits_iff]
  constructor
  · intro again entry among
    exact ((Yields.table StackMapEntry.read_fits).run again).2 entry among (tells.full entry among)
  · intro fits
    have few : table.length < 0x10000 := by
      have room := length_le_of_rising rising fun row among => ⟨Nat.zero_le _, inside row among⟩
      rw [tells.length_eq]
      omega
    have reads : Reads StackMapEntry.readTable 0 _ table := Reads.table table 0 few
      fun entry among => StackMapEntry.reads_write (fits entry among)
    have whole := reads.run []
    rwa [List.append_nil] at whole

/-- The written table is read back, as long as every frame has no more locals and values than can be
counted. -/
theorem Written.read {payload : Bytes} (written : Written assembled entries rows payload)
    (rising : rows.Pairwise fun a b => a.1 < b.1) (inside : ∀ row ∈ rows, row.1 < 0xFFFF)
    (countable : ∀ row ∈ rows, row.2.locals.length < 0x10000 ∧ row.2.stack.length < 0x10000)
    (initial : List FrameType) :
    ∃ table, StackMapEntry.readTable.run payload = .ok table ∧
      StackMapEntry.expand entries initial table = .ok (rows.map (told assembled)) := by
  obtain ⟨table, rfl, tells⟩ := written.tells
  refine ⟨table, (tells.read_iff rising inside).2 countable, ?_⟩
  exact tells.expand initial [] rising fun row among =>
    ⟨Nat.zero_le _, Nat.le_of_lt (inside row among)⟩

end StackMap

end ClassWeave
