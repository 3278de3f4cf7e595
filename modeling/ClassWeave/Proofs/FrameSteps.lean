/-
# ClassWeave.Proofs.FrameSteps -- what an instruction can do to a frame

The types on the stack after an instruction were there before, were loaded from a slot
that holds something, or come from the instruction (`Frame.execute_stack`).  What comes
from an instruction are values (`FrameType.isValue`), but for the object under construction
that a creating one leaves, at its own position (`Instruction.effect_made`).  The locals
change only where a value is stored or a constructor has run (`Frame.execute_locals`).

So whatever is to hold of the types in a frame is shown for these few ways.
-/
import ClassWeave.Frame.Execute
import ClassWeave.Proofs.InstructionRoundTrip
import ClassWeave.Proofs.Outcome

set_option autoImplicit false

namespace ClassWeave

/-! ## What instructions make -/

/-- A value as programs know them, no empty slot and no object under construction. -/
def FrameType.isValue : FrameType → Bool
  | top | uninitializedThis | uninitialized _ => false
  | _ => true

theorem FrameType.isValue_of_ofValue {value : ValueType} {type : FrameType}
    (made : ofValue value = .ok type) : type.isValue = true := by
  cases value <;> cases made <;> rfl

theorem FrameType.isValue_of_described {descriptor : String} {type : FrameType}
    (made : described descriptor = .ok type) : type.isValue = true := by
  unfold described at made
  split at made
  · exact isValue_of_ofValue made
  · cases made

theorem MethodType.isValue_of_pushed {type : MethodType} {pushed : List FrameType}
    (made : type.pushed = .ok pushed) : ∀ own ∈ pushed, own.isValue = true := by
  unfold MethodType.pushed at made
  split at made
  · cases made
    exact List.forall_mem_nil _
  · obtain ⟨own, known, rfl⟩ := Outcome.map_eq_ok.1 made
    exact List.forall_mem_singleton.2 (FrameType.isValue_of_ofValue known)

theorem Loadable.isValue_of_frameType {constant : Loadable} {type : FrameType}
    (told : constant.frameType = .ok type) : type.isValue = true := by
  cases constant with
  | dynamic index descriptor => exact FrameType.isValue_of_described told
  | _ =>
    cases told
    rfl

theorem isValue_elementOf (array : FrameType) : (elementOf array).isValue = true := by
  have known {type : FrameType} (told : arrayElement? array = some type) :
      type.isValue = true := by
    unfold arrayElement? at told
    split at told
    · split at told
      · split at told
        all_goals
          cases told
          try rfl
      · cases told
    · cases told
  unfold elementOf
  cases told : arrayElement? array with
  | none => rfl
  | some type => exact known told

/-- The types that an effect puts on the stack of its own. -/
def Effect.made : Effect → List FrameType
  | .replace _ pushed | .construct _ _ pushed => pushed
  | .load _ otherwise => [otherwise]
  | _ => []

theorem Opcode.isValue_of_effect? {op : Opcode} {effect : Effect}
    (told : op.effect? = some effect) : ∀ type ∈ effect.made, type.isValue = true := by
  have values : ∀ op : Opcode, op.effect?.all (fun effect =>
      effect.made.all FrameType.isValue) = true := forall_of_bytes (by decide +kernel)
  have own := values op
  rw [told] at own
  exact List.all_eq_true.1 own

/-- Instructions make values; only a creating one makes an object under construction, and that at
its own place. -/
theorem Instruction.effect_made {insn : Instruction} {position : Label} {effect : Effect}
    (told : insn.effect position = .ok effect) : ∀ type ∈ effect.made, type.isValue = true ∨
      type = .uninitialized position ∧ ∃ name, insn = .type Opcode.new name := by
  -- Every case but that of `new` is settled by showing that what it makes are values.
  have values {types : List FrameType} (each : ∀ type ∈ types, type.isValue = true) :
      ∀ type ∈ types, type.isValue = true ∨
        type = .uninitialized position ∧ ∃ name, insn = .type Opcode.new name :=
    fun type among => .inl (each type among)
  cases insn with
  | simple op =>
    unfold Instruction.effect at told
    simp only at told
    split at told
    · cases told
      exact values (Opcode.isValue_of_effect? ‹_›)
    · cases told
  | type op name =>
    unfold Instruction.effect at told
    simp only at told
    split_ifs at told with creates
    · cases told
      exact List.forall_mem_singleton.2
        (.inr ⟨rfl, name, congrArg (Instruction.type · name) creates⟩)
    all_goals
      cases told
      exact values (List.forall_mem_singleton.2 rfl)
  | field op target =>
    obtain ⟨type, known, told⟩ := Outcome.bind_eq_ok.1 told
    split_ifs at told
    all_goals
      cases told
      first
        | exact values (List.forall_mem_singleton.2 (FrameType.isValue_of_described known))
        | exact List.forall_mem_nil _
  | method op target isInterface =>
    obtain ⟨type, _, told⟩ := Outcome.bind_eq_ok.1 told
    obtain ⟨pushed, known, told⟩ := Outcome.bind_eq_ok.1 told
    split_ifs at told
    all_goals
      cases told
      exact values (MethodType.isValue_of_pushed known)
  | invokeDynamic bootstrap name descriptor =>
    obtain ⟨type, _, told⟩ := Outcome.bind_eq_ok.1 told
    obtain ⟨pushed, known, told⟩ := Outcome.bind_eq_ok.1 told
    cases told
    exact values (MethodType.isValue_of_pushed known)
  | ldc op constant =>
    obtain ⟨type, known, told⟩ := Outcome.bind_eq_ok.1 told
    cases told
    exact values (List.forall_mem_singleton.2 (Loadable.isValue_of_frameType known))
  | int op operand =>
    unfold Instruction.effect at told
    simp only at told
    split at told
    · split at told
      · cases told
        exact values (List.forall_mem_singleton.2 rfl)
      · cases told
        exact List.forall_mem_nil _
    · cases told
      exact values (List.forall_mem_singleton.2 rfl)
  | var op slot =>
    unfold Instruction.effect at told
    simp only at told
    split_ifs at told
    all_goals
      cases told
      first
        | exact values (List.forall_mem_singleton.2 rfl)
        | exact List.forall_mem_nil _
  | jump op target =>
    unfold Instruction.effect at told
    simp only at told
    split_ifs at told
    all_goals
      cases told
      exact List.forall_mem_nil _
  | multiNewArray name dimensions =>
    cases told
    exact values (List.forall_mem_singleton.2 rfl)
  | iinc | tableSwitch | lookupSwitch =>
    cases told
    exact List.forall_mem_nil _

/-- Moving values about makes none. -/
theorem Shuffle.apply_subset {moves : Shuffle} {stack after : List FrameType}
    (moved : moves.apply stack = some after) : after ⊆ stack := by
  unfold apply at moved
  repeat' split at moved
  all_goals first
    | (cases moved; done)
    | (cases moved
       intro type among
       simp only [List.mem_cons] at among ⊢
       tauto)

/-! ## What becomes of a frame -/

namespace Frame

variable {frame after : Frame} {className : String} {effect : Effect} {insn : Instruction}
  {position : Label}

theorem take?_eq_some {count : Nat} (taken : frame.take? count = some after) :
    after = { frame with stack := frame.stack.drop count } := by
  unfold take? at taken
  split at taken <;> cases taken
  rfl

theorem execute_eq_ok (ran : frame.execute insn position className = .ok after) :
    ∃ effect, insn.effect position = .ok effect ∧ frame.after? className effect = some after := by
  unfold execute at ran
  split at ran
  · cases ran
  · split at ran
    · cases ran
    · cases ran
    · cases ran
      exact ⟨_, ‹_›, ‹_›⟩

/-- Types come onto the stack from a slot, or from the effect itself. -/
theorem after?_stack (good : FrameType → Prop) (values : ∀ type, type.isValue = true → good type)
    (held : ∀ type ∈ frame.stack, good type)
    (loads : ∀ slot, frame.load slot ≠ .top → good (frame.load slot))
    (made : ∀ type ∈ effect.made, good type)
    (changed : frame.after? className effect = some after) : ∀ type ∈ after.stack, good type := by
  have dropped (count : Nat) : ∀ type ∈ frame.stack.drop count, good type := fun type among =>
    held type (List.drop_subset _ _ among)
  cases effect with
  | replace taken pushed =>
    obtain ⟨rest, kept, rfl⟩ := Option.map_eq_some_iff.1 changed
    rw [take?_eq_some kept]
    exact List.forall_mem_append.2 ⟨made, dropped taken⟩
  | load slot otherwise =>
    cases changed
    refine List.forall_mem_cons.2 ⟨?_, held⟩
    -- An empty slot yields what the effect falls back on, which is among what it makes.
    unfold loaded
    split
    · exact made otherwise List.mem_cons_self
    · exact loads slot ‹_›
  | store slot =>
    rw [after?] at changed
    split at changed <;> cases changed
    rename_i type stack top
    rw [top] at held
    exact (List.forall_mem_cons.1 held).2
  | element =>
    rw [after?] at changed
    split at changed <;> cases changed
    rename_i index array stack top
    rw [top] at held
    have rest := (List.forall_mem_cons.1 (List.forall_mem_cons.1 held).2).2
    exact List.forall_mem_cons.2 ⟨values _ (isValue_elementOf array), rest⟩
  | shuffle moves =>
    obtain ⟨stack, moved, rfl⟩ := Option.map_eq_some_iff.1 changed
    exact fun type among => held type (Shuffle.apply_subset moved among)
  | construct arguments owner pushed =>
    rw [after?] at changed
    split at changed <;> cases changed
    rename_i receiver stack top
    have rest := dropped arguments
    rw [top] at rest
    refine List.forall_mem_append.2 ⟨made, List.forall_mem_map.2 fun type among => ?_⟩
    split
    · exact values _ rfl
    · exact (List.forall_mem_cons.1 rest).2 type among
  | refuse taken cause =>
    rw [take?_eq_some changed]
    exact dropped taken

/-- Locals change by a store and by construction, both with what is on the stack. -/
theorem after?_locals (shape : List FrameType → Prop) (kept : shape frame.locals)
    (stores : ∀ slot, ∀ type ∈ frame.stack, shape (frame.store slot type).locals)
    (builds : ∀ receiver ∈ frame.stack, ∀ owner, shape (frame.construct receiver owner).locals)
    (changed : frame.after? className effect = some after) : shape after.locals := by
  cases effect with
  | replace taken pushed =>
    obtain ⟨rest, known, rfl⟩ := Option.map_eq_some_iff.1 changed
    rw [take?_eq_some known]
    exact kept
  | load slot otherwise =>
    cases changed
    exact kept
  | store slot =>
    rw [after?] at changed
    split at changed <;> cases changed
    rename_i type stack top
    exact stores slot type (top ▸ List.mem_cons_self)
  | element =>
    rw [after?] at changed
    split at changed <;> cases changed
    exact kept
  | shuffle moves =>
    obtain ⟨stack, _, rfl⟩ := Option.map_eq_some_iff.1 changed
    exact kept
  | construct arguments owner pushed =>
    rw [after?] at changed
    split at changed <;> cases changed
    rename_i receiver stack top
    exact builds receiver (List.drop_subset arguments _ (top ▸ List.mem_cons_self)) _
  | refuse taken cause =>
    rw [take?_eq_some changed]
    exact kept

theorem execute_stack (good : FrameType → Prop) (values : ∀ type, type.isValue = true → good type)
    (held : ∀ type ∈ frame.stack, good type)
    (loads : ∀ slot, frame.load slot ≠ .top → good (frame.load slot))
    (created : ∀ name, insn = .type Opcode.new name → good (.uninitialized position))
    (ran : frame.execute insn position className = .ok after) : ∀ type ∈ after.stack, good type := by
  obtain ⟨effect, told, changed⟩ := execute_eq_ok ran
  refine after?_stack good values held loads (fun type among => ?_) changed
  rcases Instruction.effect_made told type among with value | ⟨rfl, name, same⟩
  · exact values type value
  · exact created name same

theorem execute_locals (shape : List FrameType → Prop) (kept : shape frame.locals)
    (stores : ∀ slot, ∀ type ∈ frame.stack, shape (frame.store slot type).locals)
    (builds : ∀ receiver ∈ frame.stack, ∀ owner, shape (frame.construct receiver owner).locals)
    (ran : frame.execute insn position className = .ok after) : shape after.locals := by
  obtain ⟨effect, _, changed⟩ := execute_eq_ok ran
  exact after?_locals shape kept stores builds changed

/-- An instruction that fails leaves the locals alone. -/
theorem locals_afterFailure (frame : Frame) (insn : Instruction) (position : Label) :
    (frame.afterFailure insn position).locals = frame.locals := by
  unfold afterFailure
  split <;> rfl

/-- An instruction that fails takes values off the stack at most. -/
theorem stack_afterFailure_subset (frame : Frame) (insn : Instruction) (position : Label) :
    (frame.afterFailure insn position).stack ⊆ frame.stack := by
  unfold afterFailure
  split
  · exact List.Subset.refl _
  · exact List.drop_subset _ _
  · exact List.nil_subset _

end Frame

end ClassWeave
