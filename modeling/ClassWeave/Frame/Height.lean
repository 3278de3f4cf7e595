/-
# ClassWeave.Frame.Height -- the slots on the operand stack, kept along

The slots of the stack after an instruction follow from the slots before it and the
few values on top that the instruction deals with, so a rewrite that keeps the number
needs no walk down the stack.  Only a constructor call may reach further: it renames
every copy of its receiver, and a receiver that should never have been one may be wide.
-/
import ClassWeave.Frame.Execute

set_option autoImplicit false

namespace ClassWeave

namespace FrameType

theorem slotsOf_append (above below : List FrameType) :
    slotsOf (above ++ below) = slotsOf above + slotsOf below := by
  induction above with
  | nil => exact (Nat.zero_add _).symm
  | cons type above ih =>
    show type.slots + slotsOf (above ++ below) = type.slots + slotsOf above + slotsOf below
    rw [ih, Nat.add_assoc]

theorem slotsOf_take_add_drop (count : Nat) (types : List FrameType) :
    slotsOf (types.take count) + slotsOf (types.drop count) = slotsOf types := by
  rw [← slotsOf_append, List.take_append_drop]

end FrameType

/-- Moving the values on top touches no more than four of them. -/
theorem Shuffle.apply_take (moves : Shuffle) (stack after : List FrameType)
    (moved : moves.apply stack = some after) :
    ∃ above, moves.apply (stack.take 4) = some above ∧ after = above ++ stack.drop 4 := by
  match stack with
  | [] => cases moves <;> simp_all [Shuffle.apply]
  | [a] => cases moves <;> simp_all [Shuffle.apply]
  | [a, b] => cases moves <;> simp_all [Shuffle.apply]
  | [a, b, c] => cases moves <;> simp_all [Shuffle.apply]
  | a :: b :: c :: d :: rest =>
    cases moves <;> simp only [Shuffle.apply, List.take, List.drop] at moved ⊢ <;>
      (repeat' split at moved) <;> simp_all

namespace Frame

/-- The slots of the stack of `after`, which is `frame` after an effect, from the `height` of the
stack before it. -/
def heightAfter (frame after : Frame) (height : Nat) : Effect → Nat
  | .replace taken pushed =>
    height - FrameType.slotsOf (frame.stack.take taken) + FrameType.slotsOf pushed
  | .load _ _ => height + FrameType.slotsOf (after.stack.take 1)
  | .store _ => height - FrameType.slotsOf (frame.stack.take 1)
  | .element =>
    height - FrameType.slotsOf (frame.stack.take 2) + FrameType.slotsOf (after.stack.take 1)
  | .shuffle moves =>
    height - FrameType.slotsOf (frame.stack.take 4)
      + FrameType.slotsOf ((moves.apply (frame.stack.take 4)).getD [])
  | .construct .. => after.stackSlots
  | .refuse taken _ => height - FrameType.slotsOf (frame.stack.take taken)

/-- The same for an instruction that does not fail. -/
def heightAfterExecute (frame after : Frame) (height : Nat) (insn : Instruction)
    (position : Label) : Nat :=
  match insn.effect position with
  | .ok effect => frame.heightAfter after height effect
  | .error _ => height

theorem heightAfter_eq (frame after : Frame) (className : String) (effect : Effect)
    (changed : frame.after? className effect = some after) :
    frame.heightAfter after frame.stackSlots effect = after.stackSlots := by
  have split (count : Nat) := FrameType.slotsOf_take_add_drop count frame.stack
  cases effect with
  | replace taken pushed =>
    simp only [after?, take?] at changed
    split at changed <;> simp at changed
    subst changed
    have := split taken
    simp only [heightAfter, stackSlots, push, FrameType.slotsOf_append]
    omega
  | load slot otherwise =>
    simp only [after?, Option.some.injEq] at changed
    subst changed
    simp [heightAfter, stackSlots, push, FrameType.slotsOf]
    omega
  | store slot =>
    simp only [after?] at changed
    split at changed <;> simp at changed
    subst changed
    simp_all [heightAfter, stackSlots, store, FrameType.slotsOf]
  | element =>
    simp only [after?] at changed
    split at changed <;> simp at changed
    subst changed
    simp_all [heightAfter, stackSlots, FrameType.slotsOf]
    omega
  | shuffle moves =>
    simp only [after?, Option.map_eq_some_iff] at changed
    obtain ⟨stack, moved, rfl⟩ := changed
    obtain ⟨above, top, rfl⟩ := Shuffle.apply_take moves frame.stack stack moved
    have := split 4
    simp only [heightAfter, stackSlots, top, Option.getD_some, FrameType.slotsOf_append]
    omega
  -- Copies of what is constructed may lie anywhere on the stack, so it is counted anew.
  | construct arguments owner pushed => rfl
  | refuse taken cause =>
    simp only [after?, take?] at changed
    split at changed <;> simp at changed
    subst changed
    have := split taken
    simp only [heightAfter, stackSlots]
    omega

/-- So the number that is kept along is the height of the stack. -/
theorem heightAfterExecute_eq (frame after : Frame) (insn : Instruction) (position : Label)
    (className : String) (ran : frame.execute insn position className = .ok after) :
    frame.heightAfterExecute after frame.stackSlots insn position = after.stackSlots := by
  unfold execute at ran
  unfold heightAfterExecute
  cases known : insn.effect position with
  | error cause => simp [known] at ran
  | ok effect =>
    simp only [known] at ran
    split at ran <;> cases ran
    exact heightAfter_eq _ _ _ _ ‹_›

end Frame

end ClassWeave
