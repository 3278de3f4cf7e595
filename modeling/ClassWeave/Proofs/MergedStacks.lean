/-
# ClassWeave.Proofs.MergedStacks -- stacks of one height where two ways meet

Two operand stacks of one height merge value by value, but as the merged types are trimmed
like those of locals, the values on top that have nothing in common are lost.  What is left
are the merged values below (`Frame.merge_stack`), so the height is kept just where the two
values on top have a type in common: where they are the same, or both references
(`FrameType.merge_ne_top_iff`).  An int and a float on top of two stacks leave nothing
(`Frame.merge_loses_height`).
-/
import ClassWeave.Proofs.TypeJoins

set_option autoImplicit false

namespace ClassWeave

/-- Two types have one in common if they are the same, or both references. -/
theorem FrameType.merge_ne_top_iff (hierarchy : Hierarchy) {a b : FrameType} :
    merge hierarchy a b ≠ .top ↔
      a = b ∧ a ≠ .top ∨ a.isReference = true ∧ b.isReference = true := by
  by_cases same : a = b
  · subst same
    rw [merge_self]
    refine ⟨fun some_ => .inl ⟨rfl, some_⟩, ?_⟩
    rintro (⟨_, some_⟩ | ⟨reference, _⟩)
    · exact some_
    · rintro rfl
      cases reference
  · constructor
    · intro common
      refine .inr ⟨?_, ?_⟩ <;> by_contra alone <;> rw [Bool.not_eq_true] at alone
      · exact common (merge_of_alone hierarchy same (.inl alone))
      · exact common (merge_of_alone hierarchy same (.inr alone))
    · rintro (⟨same', _⟩ | ⟨left, right⟩)
      · exact absurd same' same
      · unfold merge
        rw [if_neg same]
        cases a <;> cases left <;> cases b <;> cases right <;> simp only
        · exact absurd rfl same
        · exact FrameType.noConfusion
        · exact FrameType.noConfusion
        · split <;> exact FrameType.noConfusion

namespace Frame

/-- What is lost is on top and has nothing in common. -/
theorem mergeStacks_append (hierarchy : Hierarchy) {a b : List FrameType}
    (level : a.length = b.length) : ∃ lost,
      List.zipWith (FrameType.merge hierarchy) a b =
        List.replicate lost .top ++ mergeStacks hierarchy a b ∧
      (mergeStacks hierarchy a b).head? ≠ some .top := by
  rw [mergeStacks, if_pos level]
  generalize List.zipWith (FrameType.merge hierarchy) a b = merged
  refine ⟨(merged.takeWhile (· == .top)).length, ?_, ?_⟩
  · have all : ∀ type ∈ merged.takeWhile (· == .top), type = .top := fun type among =>
      beq_iff_eq.1 (List.all_eq_true.1 List.all_takeWhile type among)
    rw [← List.eq_replicate_of_mem all, List.takeWhile_append_dropWhile]
  · intro top
    have first := List.head?_dropWhile_not (· == FrameType.top) merged
    rw [top] at first
    cases first

/-- **Where two ways meet with stacks of one height, the values merge one by one, from the bottom
up to the last two that have a type in common.**  The height is kept if those are on top. -/
theorem merge_stack (hierarchy : Hierarchy) (a b : Frame)
    (level : a.stack.length = b.stack.length) :
    (∃ lost, List.zipWith (FrameType.merge hierarchy) a.stack b.stack =
        List.replicate lost .top ++ (merge hierarchy a b).stack ∧
      (merge hierarchy a b).stack.length + lost = a.stack.length) ∧
    (merge hierarchy a b).stack.head? ≠ some .top ∧
    ((merge hierarchy a b).stack.length = a.stack.length ↔
      ∀ one other, a.stack.head? = some one → b.stack.head? = some other →
        one = other ∧ one ≠ .top ∨ one.isReference = true ∧ other.isReference = true) := by
  obtain ⟨lost, values, first⟩ := mergeStacks_append hierarchy level
  have height : (mergeStacks hierarchy a.stack b.stack).length + lost = a.stack.length := by
    have lengths := congrArg List.length values
    rw [List.length_zipWith, List.length_append, List.length_replicate, ← level,
      Nat.min_self] at lengths
    omega
  refine ⟨⟨lost, values, height⟩, first, ?_⟩
  -- Something is lost just where the two values on top merge into nothing.
  have top : lost = 0 ↔
      (List.zipWith (FrameType.merge hierarchy) a.stack b.stack).head? ≠ some .top := by
    rw [values]
    cases lost with
    | zero => simpa using first
    | succ lost => simp [List.replicate_succ]
  have kept : (mergeStacks hierarchy a.stack b.stack).length = a.stack.length ↔ lost = 0 := by
    omega
  refine kept.trans (top.trans ?_)
  simp only [← FrameType.merge_ne_top_iff hierarchy, List.head?_zipWith]
  cases a.stack.head? <;> cases b.stack.head? <;> simp

/-- The references on top merge into one, with nothing in common below them. -/
theorem merge_stack_references :
    let a : Frame := ⟨[], [.null, .int]⟩
    let b : Frame := ⟨[], [.object "A", .float]⟩
    a.stack.length = b.stack.length ∧ (merge .flat a b).stack.length = a.stack.length ∧
      (merge .flat a b).stack = [.object "A", .top] := by
  have kept := (merge_stack .flat ⟨[], [.null, .int]⟩ ⟨[], [.object "A", .float]⟩ rfl).2.2
  refine ⟨rfl, kept.2 ?_, by decide⟩
  rintro one other ⟨⟩ ⟨⟩
  exact .inr ⟨rfl, rfl⟩

/-- An int and a float have nothing in common, and the stack that they were alone on is empty. -/
theorem merge_loses_height :
    let a : Frame := ⟨[], [.int]⟩
    let b : Frame := ⟨[], [.float]⟩
    a.stack.length = b.stack.length ∧
      List.zipWith (FrameType.merge .flat) a.stack b.stack = [.top] ∧
      (merge .flat a b).stack = [] := by
  decide

end Frame

end ClassWeave
