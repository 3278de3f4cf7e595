/-
# ClassWeave.Proofs.FrameForms -- what a recorded frame says about the frame it came from

A frame of a method is merged with the simulated one before it is recorded: the slots
that the method knows are its own, but that an object under construction carries the
label its `new` instruction has now (`FrameType.Alike`).  It is recorded in compact form,
which leaves out the upper slots of wide values and the empty slots at the end.  None of
this loses a slot: read in slot form, the recorded frame agrees with the frame of the
method wherever the method says something (`PinnedFrame.Agrees`).
-/
import ClassWeave.Proofs.Outcome
import ClassWeave.Rewrite.Method

set_option autoImplicit false

namespace ClassWeave

/-! ## Slots -/

/-- The type of a slot; there is nothing in the slots past the end. -/
def slotAt (locals : List FrameType) (i : Nat) : FrameType := (locals[i]?).getD .top

@[simp] theorem slotAt_nil (i : Nat) : slotAt [] i = .top := rfl

@[simp] theorem slotAt_cons_zero (type : FrameType) (rest : List FrameType) :
    slotAt (type :: rest) 0 = type := rfl

@[simp] theorem slotAt_cons_succ (type : FrameType) (rest : List FrameType) (i : Nat) :
    slotAt (type :: rest) (i + 1) = slotAt rest i := by
  simp [slotAt]

/-- The upper slot of every wide value below `size` is empty. -/
def Spread (size : Nat) (locals : List FrameType) : Prop :=
  ∀ i, i + 1 < size → (slotAt locals i).isWide = true → slotAt locals (i + 1) = .top

theorem Spread.tail {size : Nat} {type : FrameType} {rest : List FrameType}
    (spread : Spread (size + 1) (type :: rest)) : Spread size rest := by
  intro i within wide
  have next := spread (i + 1) (by omega) (by rwa [slotAt_cons_succ])
  rwa [slotAt_cons_succ] at next

@[simp] theorem expandLocals_cons (type : FrameType) (rest : List FrameType) :
    expandLocals (type :: rest) =
      (if type.isWide then [type, .top] else [type]) ++ expandLocals rest := rfl

theorem spread_expandLocals (size : Nat) : ∀ locals : List FrameType,
    Spread size (expandLocals locals)
  | [] => fun _ _ wide => by cases wide
  | type :: rest => by
    intro i within wide
    have later := spread_expandLocals size rest
    rw [expandLocals_cons] at wide ⊢
    by_cases own : type.isWide = true
    · rw [if_pos own] at wide ⊢
      match i with
      | 0 => rfl
      | 1 => cases wide
      | i + 2 => exact later i (by omega) wide
    · rw [if_neg own] at wide ⊢
      match i with
      | 0 => exact absurd wide own
      | i + 1 => exact later i (by omega) wide

/-! ## Compact form and back -/

/-- Empty slots at the end say nothing. -/
theorem slotAt_append_top {locals more : List FrameType} (empty : ∀ type ∈ more, type = .top)
    (i : Nat) : slotAt (locals ++ more) i = slotAt locals i := by
  unfold slotAt
  by_cases within : i < locals.length
  · rw [List.getElem?_append_left within]
  · rw [List.getElem?_append_right (Nat.not_lt.1 within),
      List.getElem?_eq_none (Nat.not_lt.1 within)]
    cases found : more[i - locals.length]? with
    | none => rfl
    | some type => exact empty type (List.mem_of_getElem? found)

/-- What is trimmed off is empty. -/
theorem trimTop_append (types : List FrameType) :
    ∃ tops, trimTop types ++ tops = types ∧ ∀ type ∈ tops, type = .top := by
  refine ⟨(types.reverse.takeWhile (· == FrameType.top)).reverse, ?_, fun type among => ?_⟩
  · rw [trimTop, ← List.reverse_append, List.takeWhile_append_dropWhile, List.reverse_reverse]
  · have all := List.all_eq_true.1 List.all_takeWhile type (List.mem_reverse.1 among)
    simpa using all

theorem slotAt_trimTop (types : List FrameType) (i : Nat) :
    slotAt (trimTop types) i = slotAt types i := by
  obtain ⟨tops, split, empty⟩ := trimTop_append types
  conv_rhs => rw [← split]
  exact (slotAt_append_top empty i).symm

/-- What is left after trimming ends with a slot that holds something. -/
theorem slotAt_last_trimTop {types : List FrameType} {size : Nat}
    (length : (trimTop types).length = size + 1) : slotAt types size ≠ .top := by
  intro empty
  have last : (trimTop types).getLast? = some .top := by
    rw [List.getLast?_eq_getElem?, length, Nat.add_sub_cancel]
    have within : size < (trimTop types).length := by omega
    rw [← slotAt_trimTop, slotAt, List.getElem?_eq_getElem within] at empty
    rw [List.getElem?_eq_getElem within]
    exact congrArg some empty
  have kept := List.head?_dropWhile_not (· == FrameType.top) types.reverse
  rw [trimTop, List.getLast?_reverse] at last
  rw [last] at kept
  simp at kept

/-- Locals that say the same of every slot are the same up to the empty slots at the end. -/
theorem trimTop_congr {one other : List FrameType} (same : ∀ i, slotAt one i = slotAt other i) :
    trimTop one = trimTop other := by
  have within {one other : List FrameType} (same : ∀ i, slotAt one i = slotAt other i) :
      (trimTop one).length ≤ (trimTop other).length := by
    cases length : (trimTop one).length with
    | zero => exact Nat.zero_le _
    | succ size =>
      refine Nat.lt_of_not_le fun past => slotAt_last_trimTop length ?_
      rw [same, ← slotAt_trimTop, slotAt, List.getElem?_eq_none past]
      rfl
  refine List.ext_getElem (Nat.le_antisymm (within same) (within fun i => (same i).symm)) ?_
  intro i first second
  have own : slotAt (trimTop one) i = slotAt (trimTop other) i := by
    rw [slotAt_trimTop, slotAt_trimTop, same]
  rwa [slotAt, slotAt, List.getElem?_eq_getElem first, List.getElem?_eq_getElem second] at own

theorem trimTop_trimTop (types : List FrameType) : trimTop (trimTop types) = trimTop types :=
  trimTop_congr (slotAt_trimTop types)

theorem slotAt_expand_trimTop (types : List FrameType) (i : Nat) :
    slotAt (expandLocals (trimTop types)) i = slotAt (expandLocals types) i := by
  obtain ⟨tops, split, tops_⟩ := trimTop_append types
  have empty : ∀ type ∈ expandLocals tops, type = .top := by
    intro type among
    obtain ⟨one, known, among⟩ := List.mem_flatMap.1 among
    obtain rfl := tops_ one known
    exact List.mem_singleton.1 among
  have whole : expandLocals types = expandLocals (trimTop types) ++ expandLocals tops := by
    conv_lhs => rw [← split]
    exact List.flatMap_append
  rw [whole, slotAt_append_top empty]

/-- The compact form keeps every slot as long as no upper slot of a wide value holds anything. -/
theorem slotAt_expand_compactEntries : ∀ (locals : List FrameType) {size : Nat},
    Spread size locals → ∀ i < size, slotAt (expandLocals (compactEntries locals)) i = slotAt locals i
  | [], _, _, _, _ => rfl
  | [type], _, _, i, _ => by
    by_cases wide : type.isWide = true
    · rw [compactEntries, if_pos wide, expandLocals_cons, if_pos wide]
      match i with
      | 0 => rfl
      | 1 => rfl
      | i + 2 => rfl
    · rw [compactEntries, if_neg wide, expandLocals_cons, if_neg wide]
      rfl
  | type :: upper :: rest, size, spread, i, within => by
    by_cases wide : type.isWide = true
    · rw [compactEntries, if_pos wide]
      simp only [expandLocals_cons, if_pos wide]
      match i, size with
      | 0, _ => rfl
      | 1, _ => exact (spread 0 (by omega) wide).symm
      | i + 2, 0 => omega
      | i + 2, 1 => omega
      | i + 2, size + 2 =>
        exact slotAt_expand_compactEntries rest spread.tail.tail i (by omega)
    · rw [compactEntries, if_neg wide, expandLocals_cons, if_neg wide]
      match i, size with
      | 0, _ => rfl
      | i + 1, 0 => omega
      | i + 1, size + 1 =>
        exact slotAt_expand_compactEntries (upper :: rest) spread.tail i (by omega)

theorem slotAt_expand_compactLocals {locals : List FrameType} {size : Nat}
    (spread : Spread size locals) {i : Nat} (within : i < size) :
    slotAt (expandLocals (compactLocals locals)) i = slotAt locals i := by
  rw [compactLocals, slotAt_expand_trimTop]
  exact slotAt_expand_compactEntries locals spread i within

/-! ## Merged locals -/

theorem FrameType.merge_top_left (hierarchy : Hierarchy) (type : FrameType) :
    merge hierarchy .top type = .top := by
  cases type <;> simp [merge]

theorem FrameType.merge_top_right (hierarchy : Hierarchy) (type : FrameType) :
    merge hierarchy type .top = .top := by
  cases type <;> simp [merge]

/-- Locals merge slot by slot. -/
theorem Frame.slotAt_mergeLocals_eq (hierarchy : Hierarchy) (a b : List FrameType) (i : Nat) :
    slotAt (mergeLocals hierarchy a b) i =
      FrameType.merge hierarchy (slotAt a i) (slotAt b i) := by
  rw [mergeLocals, slotAt_trimTop]
  unfold slotAt
  rw [List.getElem?_zipWith]
  cases a[i]? with
  | none => exact (FrameType.merge_top_left hierarchy _).symm
  | some one =>
    cases b[i]? with
    | none => exact (FrameType.merge_top_right hierarchy one).symm
    | some other => rfl

/-! ## Frames of the method merged with simulated ones -/

/-- The same type, but for the label of an object under construction. -/
def FrameType.Alike (one other : FrameType) : Prop :=
  one = other ∨ ∃ site site', one = .uninitialized site ∧ other = .uninitialized site'

namespace MethodRewrite

theorem remap_alike (original : FrameType) (simulated : Option FrameType) :
    (remap original simulated).Alike original := by
  unfold remap
  split
  · exact .inr ⟨_, _, rfl, rfl⟩
  · exact .inl rfl

theorem isWide_remap (original : FrameType) (simulated : Option FrameType) :
    (remap original simulated).isWide = original.isWide := by
  unfold remap
  split <;> rfl

theorem slotAt_mergedLocals : ∀ {known i : Nat} (original current : List FrameType), i < known →
    slotAt (mergedLocals known original current) i = remap (slotAt original i) current[i]?
  | known + 1, 0, original, current, _ => by
    rw [mergedLocals, slotAt_cons_zero, slotAt, List.head?_eq_getElem?, List.head?_eq_getElem?]
  | known + 1, i + 1, original, current, within => by
    rw [mergedLocals, slotAt_cons_succ, slotAt_mergedLocals _ _ (by omega)]
    simp only [slotAt, List.getElem?_tail]

/-- The merged locals, recorded in compact form, are those of the method. -/
theorem mergedLocals_alike (known : Nat) (locals current : List FrameType) {i : Nat}
    (within : i < known) :
    (slotAt (expandLocals (compactLocals (mergedLocals known (expandLocals locals) current)))
      i).Alike (slotAt (expandLocals locals) i) := by
  have spread : Spread known (mergedLocals known (expandLocals locals) current) := by
    intro j below wide
    rw [slotAt_mergedLocals _ _ (by omega), isWide_remap] at wide
    rw [slotAt_mergedLocals _ _ below, spread_expandLocals known locals j below wide]
    rfl
  rw [slotAt_expand_compactLocals spread within, slotAt_mergedLocals _ _ within]
  exact remap_alike _ _

theorem mergedStack_alike (original current : List FrameType) :
    List.Forall₂ FrameType.Alike (mergedStack original current) original := by
  unfold mergedStack
  split
  · rename_i size
    induction original generalizing current with
    | nil => exact .nil
    | cons type rest ih =>
      cases current with
      | nil => cases size
      | cons simulated others =>
        exact .cons (remap_alike _ _) (ih others (Nat.succ.inj size))
  · exact List.forall₂_same.2 fun _ _ => .inl rfl

end MethodRewrite

/-- The frame says what another one says: of the slots below `known` in slot form, and of the
operand stack. -/
structure PinnedFrame.Agrees (known : Nat) (locals stack : List FrameType) (frame : PinnedFrame) :
    Prop where
  locals : ∀ i < known,
    (slotAt (expandLocals frame.locals) i).Alike (slotAt (expandLocals locals) i)
  stack : List.Forall₂ FrameType.Alike frame.stack stack

end ClassWeave
