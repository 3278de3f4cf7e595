/-
# ClassWeave.Proofs.StackDepth -- the new operand stack holds all that the simulation sees

The size of the operand stack that a rewritten method declares is the greatest depth the
simulation has seen.  Whatever frame the simulation is at while control can be there, and
whatever frame a forward jump carries to a label not placed yet, fits in it
(`MethodRewrite.Fitting`), and no depth is forgotten (`MethodRewrite.upheld_deep`), so
what fits once fits in what is declared in the end.

Code that the simulation does not see need not fit.  A label that only backward jumps
reach is passed without control coming there, and what is injected behind it is not
run on any frame: in the loop of `Sample.bottomLoop` it takes one slot more than the
method declares.
-/
import ClassWeave.Proofs.Refinement
import ClassWeave.Proofs.SimulationSteps

set_option autoImplicit false

namespace ClassWeave

/-! ## Merged stacks -/

theorem FrameType.slots_pos (type : FrameType) : 1 ≤ type.slots := by
  unfold slots
  split <;> decide

/-- A merged value takes no more slots than the first one did. -/
theorem FrameType.slots_merge (hierarchy : Hierarchy) (a b : FrameType) :
    (merge hierarchy a b).slots ≤ a.slots := by
  have narrow := slots_pos a
  unfold merge
  split
  · exact Nat.le_refl _
  · split
    · exact narrow
    · exact narrow
    · split <;> exact narrow
    · exact narrow

namespace Frame

theorem slotsOf_zipWith_merge (hierarchy : Hierarchy) : ∀ a b : List FrameType,
    FrameType.slotsOf (List.zipWith (FrameType.merge hierarchy) a b) ≤ FrameType.slotsOf a
  | [], _ => Nat.le_refl _
  | _ :: _, [] => Nat.zero_le _
  | one :: a, other :: b => by
    have rest := slotsOf_zipWith_merge hierarchy a b
    have first := FrameType.slots_merge hierarchy one other
    simp only [FrameType.slotsOf, List.zipWith_cons_cons, List.foldr_cons] at rest ⊢
    omega

theorem slotsOf_dropWhile_le (drops : FrameType → Bool) (types : List FrameType) :
    FrameType.slotsOf (types.dropWhile drops) ≤ FrameType.slotsOf types := by
  have split := FrameType.slotsOf_append (types.takeWhile drops) (types.dropWhile drops)
  rw [List.takeWhile_append_dropWhile] at split
  omega

/-- Where two ways meet, the stack is no higher than it was on the first. -/
theorem stackSlots_merge_le (hierarchy : Hierarchy) (a b : Frame) :
    (merge hierarchy a b).stackSlots ≤ a.stackSlots := by
  show FrameType.slotsOf (mergeStacks hierarchy a.stack b.stack) ≤ FrameType.slotsOf a.stack
  unfold mergeStacks
  split
  · exact Nat.le_trans (slotsOf_dropWhile_le _ _) (slotsOf_zipWith_merge hierarchy _ _)
  · exact Nat.le_refl _

theorem stack_of_initial {className methodName descriptor : String} {isStatic : Bool} {frame : Frame}
    (made : initial className methodName descriptor isStatic = .ok frame) : frame.stack = [] := by
  unfold initial at made
  obtain ⟨type, _, made⟩ := Outcome.bind_eq_ok.1 made
  obtain ⟨params, _, made⟩ := Outcome.bind_eq_ok.1 made
  cases made
  rfl

end Frame

namespace MethodRewrite

/-! ## Depths that fit -/

/-- What the simulation is at, and what jumps carry, fits in the greatest depth seen so far. -/
structure Fitting (rewrite : MethodRewrite) : Prop where
  height : rewrite.height = rewrite.current.stackSlots
  current : rewrite.reachable = true → rewrite.current.stackSlots ≤ rewrite.maxStack
  carried : ∀ (label : Label) (frame : Frame), rewrite.saved[label]? = some frame →
    frame.stackSlots ≤ rewrite.maxStack

variable {rewrite : MethodRewrite} {depth : Nat}

/-- Depths that fit go on to fit when more has been seen. -/
theorem Fitting.carried_le (fitting : rewrite.Fitting) (deeper : rewrite.maxStack ≤ depth)
    (label : Label) (frame : Frame) (known : rewrite.saved[label]? = some frame) :
    frame.stackSlots ≤ depth :=
  Nat.le_trans (fitting.carried label frame known) deeper

/-- All fits, and the depth has been seen. -/
def Deep (depth : Nat) (rewrite : MethodRewrite) : Prop := rewrite.Fitting ∧ depth ≤ rewrite.maxStack

/-- At another frame the depth of which is noted. -/
theorem Deep.note (deep : rewrite.Deep depth) {after : MethodRewrite}
    (height : after.height = after.current.stackSlots)
    (seen : after.maxStack = max rewrite.maxStack after.height)
    (saved : after.saved = rewrite.saved) : after.Deep depth := by
  have deeper : rewrite.maxStack ≤ after.maxStack := seen ▸ Nat.le_max_left _ _
  refine ⟨⟨height, fun _ => ?_, ?_⟩, Nat.le_trans deep.2 deeper⟩
  · rw [seen, height]
    exact Nat.le_max_right _ _
  · rw [saved]
    exact deep.1.carried_le deeper

theorem Deep.erase (deep : rewrite.Deep depth) (label : Label) :
    Deep depth { rewrite with saved := rewrite.saved.erase label } := by
  refine ⟨⟨deep.1.height, deep.1.current, fun other frame known => ?_⟩, deep.2⟩
  simp only [Std.TreeMap.getElem?_erase] at known
  split at known
  · cases known
  · exact deep.1.carried other frame known

theorem Deep.placeLabel (deep : rewrite.Deep depth) (label : Label) :
    (rewrite.placeLabel label).Deep depth := by
  have erased := deep.erase label
  unfold MethodRewrite.placeLabel
  simp only
  cases comes : rewrite.arriving label with
  | some frame => exact erased.note rfl rfl rfl
  | none =>
    -- The depth of the stack that is taken for granted here is not noted: control is elsewhere.
    have away := reachable_of_arriving comes
    refine ⟨⟨rfl, fun here => ?_, erased.1.carried⟩, deep.2⟩
    exact absurd (away.symm.trans here) Bool.false_ne_true

theorem Deep.endPrefix (deep : rewrite.Deep depth) : rewrite.endPrefix.Deep depth := by
  unfold MethodRewrite.endPrefix
  split
  · exact ⟨⟨deep.1.height, deep.1.current, deep.1.carried⟩, deep.2⟩
  · exact deep

/-- What a jump carries is where control is. -/
theorem Deep.carry (deep : rewrite.Deep depth) (here : rewrite.reachable = true) (label : Label) :
    (rewrite.carry label).Deep depth ∧ (rewrite.carry label).reachable = true := by
  have inserted {frame : Frame} (fits : frame.stackSlots ≤ rewrite.maxStack) (other : Label)
      (found : Frame) (known : (rewrite.saved.insert label frame)[other]? = some found) :
      found.stackSlots ≤ rewrite.maxStack := by
    rw [Std.TreeMap.getElem?_insert] at known
    split at known
    · cases known
      exact fits
    · exact deep.1.carried other found known
  unfold MethodRewrite.carry
  split
  · exact ⟨deep, here⟩
  · split
    · exact ⟨⟨⟨deep.1.height, deep.1.current, inserted (deep.1.current here)⟩, deep.2⟩, here⟩
    · rename_i saved known
      have merged := Nat.le_trans
        (Frame.stackSlots_merge_le rewrite.target.hierarchy saved rewrite.current)
        (deep.1.carried label saved known)
      exact ⟨⟨⟨deep.1.height, deep.1.current, inserted merged⟩, deep.2⟩, here⟩

theorem Deep.foldl_carry {labels : List Label} (deep : rewrite.Deep depth)
    (here : rewrite.reachable = true) :
    (labels.foldl MethodRewrite.carry rewrite).Deep depth := by
  induction labels generalizing rewrite with
  | nil => exact deep
  | cons label labels ih =>
    obtain ⟨carried, still⟩ := deep.carry here label
    exact ih carried still

/-- The depth behind an instruction is noted. -/
theorem Deep.simulate (deep : rewrite.Deep depth) (insn : Instruction) (position : Label) :
    (rewrite.simulate insn position).Deep depth := by
  unfold MethodRewrite.simulate
  split
  · split
    · rename_i frame done
      have height : rewrite.current.heightAfterExecute frame rewrite.height insn position =
          frame.stackSlots := by
        rw [deep.1.height]
        exact Frame.heightAfterExecute_eq _ _ _ _ _ done
      exact deep.note height rfl rfl
    · exact deep.note rfl rfl rfl
  · exact deep

theorem Deep.leave (deep : rewrite.Deep depth) (insn : Instruction) :
    (rewrite.leave insn).Deep depth := by
  unfold MethodRewrite.leave
  simp only
  have jumped : Deep depth
      (if rewrite.reachable then insn.targets.foldl MethodRewrite.carry rewrite else rewrite) := by
    split
    · exact deep.foldl_carry ‹_›
    · exact deep
  revert jumped
  generalize (if rewrite.reachable then insn.targets.foldl MethodRewrite.carry rewrite else rewrite)
    = gone
  intro jumped
  have left : Deep depth
      (if insn.opcode.endsFlow || !insn.targets.isEmpty then gone.endPrefix else gone) := by
    split
    · exact jumped.endPrefix
    · exact jumped
  split
  · exact ⟨⟨rfl, fun here => (Bool.false_ne_true here).elim, left.1.carried⟩, left.2⟩
  · exact left

/-! ## Runs -/

theorem upheld_deep (depth : Nat) : Upheld (Deep depth) where
  quiet {before after} deep same := by
    simp only [simulation, Prod.mk.injEq] at same
    obtain ⟨current, height, reachable, saved, -, -, maxStack⟩ := same
    refine ⟨⟨?_, ?_, ?_⟩, ?_⟩
    · rw [height, current]
      exact deep.1.height
    · rw [reachable, current, maxStack]
      exact deep.1.current
    · rw [saved, maxStack]
      exact deep.1.carried
    · rw [maxStack]
      exact deep.2
  placeLabel label deep := deep.placeLabel label
  recordAt _ _ _ deep := deep.endPrefix.note rfl rfl rfl
  simulate insn position deep := deep.simulate insn position
  leave insn deep := deep.leave insn

theorem fitting_start (target : RewriteTarget) (method : MethodContext) :
    (start target method).Fitting := by
  have empty : (start target method).current.stack = [] := by
    unfold start
    simp only
    split
    · exact Frame.stack_of_initial ‹_›
    · rfl
  have flat : (start target method).current.stackSlots = 0 :=
    congrArg FrameType.slotsOf empty
  exact ⟨flat.symm, fun _ => Nat.le_of_eq flat, fun label frame known => by cases known⟩

/-- What the simulation is at, and what jumps carry, fits in an operand stack of the size.  No
method can declare more than the greatest number of two bytes. -/
structure FitsIn (maxStack : UInt16) (rewrite : MethodRewrite) : Prop where
  current : rewrite.reachable = true → min rewrite.current.stackSlots 0xFFFF ≤ maxStack.toNat
  carried : ∀ (label : Label) (frame : Frame), rewrite.saved[label]? = some frame →
    min frame.stackSlots 0xFFFF ≤ maxStack.toNat

theorem Fitting.fitsIn (fitting : rewrite.Fitting) {maxStack : UInt16}
    (deeper : min rewrite.maxStack 0xFFFF ≤ maxStack.toNat) : rewrite.FitsIn maxStack := by
  have within {depth : Nat} (fits : depth ≤ rewrite.maxStack) :
      min depth 0xFFFF ≤ maxStack.toNat := by omega
  exact ⟨fun here => within (fitting.current here),
    fun label frame known => within (fitting.carried label frame known)⟩

theorem maxStack_le_final (rewrite : MethodRewrite) :
    min rewrite.maxStack 0xFFFF ≤ rewrite.finalMaxStack.toNat := by
  have seen : (UInt16.ofNat (min rewrite.maxStack 0xFFFF)).toNat = min rewrite.maxStack 0xFFFF := by
    simp only [UInt16.toNat_ofNat']
    omega
  show _ ≤ (if _ ≤ _ then _ else _ : UInt16).toNat
  split
  · rename_i larger
    exact Nat.le_trans (Nat.le_of_eq seen.symm) larger
  · exact Nat.le_of_eq seen.symm

/-- **The declared operand stack holds all that the simulation sees**, at any point of a run. -/
theorem simulated_depth_fits {target : RewriteTarget} {method : MethodContext}
    {first rest : List Action} {pool after : ConstantPool} {payload : Bytes} (sound : pool.Sound)
    (done : ((first ++ rest).foldl act (start target method)).serialize pool =
      (.ok payload, after)) :
    ∃ maxStack others, payload = Bytes.u2 maxStack ++ others ∧
      (first.foldl act (start target method)).FitsIn maxStack := by
  obtain ⟨written⟩ := serialized sound done
  have whole := written.whole
  simp only [List.append_assoc] at whole
  let now := first.foldl act (start target method)
  -- One invariant for both parts of the run: first that all fits, then that the depth seen by
  -- then stays seen.
  have early : now.Deep 0 :=
    (upheld_deep 0).run first ⟨fitting_start target method, Nat.zero_le _⟩
  have late : (rest.foldl act now).Deep now.maxStack :=
    (upheld_deep now.maxStack).run rest ⟨early.1, Nat.le_refl _⟩
  have grown : min now.maxStack 0xFFFF ≤ (rest.foldl act now).finalMaxStack.toNat := by
    have deeper := late.2
    have final := maxStack_le_final (rest.foldl act now)
    omega
  refine ⟨_, _, whole, early.1.fitsIn ?_⟩
  rw [List.foldl_append]
  exact grown

end MethodRewrite

/-- A value is pushed. -/
def Sample.pushes : List Action :=
  [.own (.sizes 0 1), .own (.label ⟨0⟩), .request (.event (.insn (.simple Opcode.iconst0)))]

/-- And taken off again. -/
def Sample.pops : List Action :=
  [.request (.event (.insn (.simple Opcode.pop))), .own (.insn (.simple Opcode.voidReturn)),
    .own (.label ⟨1⟩), .own (.maxs 0 1)]

def Sample.unprobed : MethodRewrite :=
  .start (.start "A" 52 (ConstantPool.ofEntries #[]) Hierarchy.flat Options.standard)
    ⟨0, 8, "m", "(I)V"⟩

theorem MethodRewrite.simulated_depth_fits_push : ∃ payload after maxStack others,
    ((Sample.pushes ++ Sample.pops).foldl MethodRewrite.act Sample.unprobed).serialize
      (ConstantPool.ofEntries #[]) = (.ok payload, after) ∧
    payload = Bytes.u2 maxStack ++ others ∧
    (Sample.pushes.foldl MethodRewrite.act Sample.unprobed).FitsIn maxStack := by
  have runs : (((Sample.pushes ++ Sample.pops).foldl MethodRewrite.act Sample.unprobed).serialize
      (ConstantPool.ofEntries #[])).1.isOk = true := by decide +kernel
  rcases done : ((Sample.pushes ++ Sample.pops).foldl MethodRewrite.act Sample.unprobed).serialize
    (ConstantPool.ofEntries #[]) with ⟨_ | payload, after⟩
  all_goals rw [done] at runs
  · cases runs
  · obtain ⟨maxStack, others, whole, fits⟩ :=
      MethodRewrite.simulated_depth_fits (ConstantPool.ofEntries_sound _) done
    exact ⟨payload, after, maxStack, others, rfl, whole, fits⟩

/-! ## Ways through code -/

/-- The offsets that control may come to from an instruction, which is no call that fails: its
targets and, unless control ends there, the offset behind it. -/
def followers (code : List (Nat × Instruction)) (offset : Nat) (insn : Instruction) : List Nat :=
  let behind := if insn.opcode.endsFlow then none else code.find? fun item => offset < item.1
  insn.targets.map Label.id ++ (behind.map Prod.fst).toList

/-- On some way through code without handlers, control comes to the offset with the frame. -/
inductive Comes (code : List (Nat × Instruction)) (className : String) (entry : Frame) :
    Nat → Frame → Prop
  | entry : Comes code className entry 0 entry
  | on {offset next : Nat} (insn : Instruction) {frame after : Frame}
      (here : Comes code className entry offset frame) (stands : (offset, insn) ∈ code)
      (runs : frame.execute insn ⟨offset⟩ className = .ok after)
      (goes : next ∈ followers code offset insn) : Comes code className entry next after

/-- Whether every step from a row of the table leads to a row of the table. -/
def closedTable (code : List (Nat × Instruction)) (className : String)
    (table : List (Nat × Frame)) : Bool :=
  table.all fun (offset, frame) => code.all fun (place, insn) => place != offset ||
    match frame.execute insn ⟨offset⟩ className with
    | .ok after => (followers code offset insn).all fun next => table.contains (next, after)
    | .error _ => true

/-- Control comes to rows of such a table only. -/
theorem Comes.mem {code : List (Nat × Instruction)} {className : String} {entry : Frame}
    {table : List (Nat × Frame)} (starts : (0, entry) ∈ table)
    (closed : closedTable code className table = true) {offset : Nat} {frame : Frame}
    (comes : Comes code className entry offset frame) : (offset, frame) ∈ table := by
  induction comes with
  | entry => exact starts
  | on _ _ stands runs goes ih =>
    have row := List.all_eq_true.1 (List.all_eq_true.1 closed _ ih) _ stands
    simp only [bne_self_eq_false, Bool.false_or, runs] at row
    exact List.contains_iff_mem.1 (List.all_eq_true.1 row _ goes)

/-! ## A loop that only a backward jump enters -/

/-- `class demo.C { static int F; static void m(int i) { ... } }` with the given payload for the
code. -/
def Sample.countingClass (payload : Bytes) : Bytes :=
  [0xCA, 0xFE, 0xBA, 0xBE, 0, 0, 0, 49,
    0, 12, 1, 0, 6, 100, 101, 109, 111, 47, 67, 7, 0, 1,
    1, 0, 16, 106, 97, 118, 97, 47, 108, 97, 110, 103, 47, 79, 98, 106, 101, 99, 116, 7, 0, 3,
    1, 0, 1, 70, 1, 0, 1, 73, 1, 0, 1, 109, 1, 0, 4, 40, 73, 41, 86, 12, 0, 5, 0, 6,
    9, 0, 2, 0, 9, 1, 0, 4, 67, 111, 100, 101,
    0, 33, 0, 2, 0, 4, 0, 0, 0, 1, 0, 9, 0, 5, 0, 6, 0, 0, 0, 1, 0, 9, 0, 7, 0, 8, 0, 1, 0, 11]
    ++ Bytes.u4 (UInt32.ofNat payload.length) ++ payload ++ [0, 0]

/-- A loop that is entered at its end and stores into the field. -/
def Sample.bottomLoop : Bytes :=
  Sample.countingClass [0, 1, 0, 1, 0, 0, 0, 13,
    0xA7, 0, 7, 3, 0xB3, 0, 10, 0x15, 0, 0x9A, 0xFF, 0xFA, 0xB1, 0, 0, 0, 0]

/-- Before each store a value is pushed and taken off again. -/
def Sample.beforeStores : Transformer :=
  ⟨[⟨"demo/C", "m", none, ⟨"", "", "", "", 0, .fieldSet, .before⟩,
    Snippet.probeCode [.insn (.simple Opcode.iconst0), .insn (.simple Opcode.pop)]⟩],
    Options.standard⟩

def Sample.bottomLoopPushing : Bytes :=
  Sample.countingClass [0, 1, 0, 1, 0, 0, 0, 15,
    0xA7, 0, 9, 3, 3, 0x57, 0xB3, 0, 10, 0x15, 0, 0x9A, 0xFF, 0xF8, 0xB1, 0, 0, 0, 0]

/-- The instructions of the methods of a class, each at its offset. -/
def ClassFile.listings (bytes : Bytes) : Except ReadError (List (List (Nat × Instruction))) := do
  let file ← read bytes
  file.methods.mapM fun member => do
    match ← member.code? file.entries with
    | none => return []
    | some code => decode file.entries code.code

def Sample.bottomLoopCode : List (Nat × Instruction) :=
  [(0, .jump Opcode.goto ⟨7⟩), (3, .simple Opcode.iconst0),
    (4, .field Opcode.putstatic ⟨"demo/C", "F", "I"⟩), (7, .var Opcode.iload 0),
    (9, .jump 0x9A ⟨3⟩), (12, .simple Opcode.voidReturn)]

def Sample.bottomLoopPushingCode : List (Nat × Instruction) :=
  [(0, .jump Opcode.goto ⟨9⟩), (3, .simple Opcode.iconst0), (4, .simple Opcode.iconst0),
    (5, .simple Opcode.pop), (6, .field Opcode.putstatic ⟨"demo/C", "F", "I"⟩),
    (9, .var Opcode.iload 0), (11, .jump 0x9A ⟨3⟩), (14, .simple Opcode.voidReturn)]

/-- The stack of the method never held more than the one slot that it declared.  In the new method
the loop has two values on the stack when the jump back has led into it, and the declared stack
still has one slot. -/
theorem bottomLoop_overflows :
    (Sample.beforeStores.transform? ⟨none, []⟩ Sample.bottomLoop ClassCache.empty).1 =
      .ok (some Sample.bottomLoopPushing) ∧
    ClassFile.listings Sample.bottomLoop = .ok [Sample.bottomLoopCode] ∧
    ClassFile.listings Sample.bottomLoopPushing = .ok [Sample.bottomLoopPushingCode] ∧
    (ClassFile.bodies Sample.bottomLoopPushing).map (·.map (·.map CodeAttribute.maxStack)) =
      .ok [some 1] ∧
    (∀ offset frame, Comes Sample.bottomLoopCode "demo/C" ⟨[.int], []⟩ offset frame →
      frame.stackSlots ≤ 1) ∧
    ∃ frame, Comes Sample.bottomLoopPushingCode "demo/C" ⟨[.int], []⟩ 5 frame ∧
      frame.stackSlots = 2 := by
  refine ⟨by decide +kernel, by decide +kernel, by decide +kernel, by decide +kernel, ?_, ?_⟩
  · intro offset frame comes
    let idle : Frame := ⟨[.int], []⟩
    let holding : Frame := ⟨[.int], [.int]⟩
    have row : (offset, frame) ∈
        [(0, idle), (3, idle), (4, holding), (7, idle), (9, holding), (12, idle)] :=
      comes.mem (by decide) (by decide +kernel)
    simp only [List.mem_cons, Prod.mk.injEq, List.not_mem_nil, or_false] at row
    rcases row with ⟨_, rfl⟩ | ⟨_, rfl⟩ | ⟨_, rfl⟩ | ⟨_, rfl⟩ | ⟨_, rfl⟩ | ⟨_, rfl⟩ <;> decide
  · have atTest : Comes Sample.bottomLoopPushingCode "demo/C" ⟨[.int], []⟩ 9 ⟨[.int], []⟩ :=
      .on (.jump Opcode.goto ⟨9⟩) .entry (by decide) (by decide +kernel) (by decide)
    have atJump : Comes Sample.bottomLoopPushingCode "demo/C" ⟨[.int], []⟩ 11 ⟨[.int], [.int]⟩ :=
      .on (.var Opcode.iload 0) atTest (by decide) (by decide +kernel) (by decide)
    have inLoop : Comes Sample.bottomLoopPushingCode "demo/C" ⟨[.int], []⟩ 3 ⟨[.int], []⟩ :=
      .on (.jump 0x9A ⟨3⟩) atJump (by decide) (by decide +kernel) (by decide)
    have pushed : Comes Sample.bottomLoopPushingCode "demo/C" ⟨[.int], []⟩ 4 ⟨[.int], [.int]⟩ :=
      .on (.simple Opcode.iconst0) inLoop (by decide) (by decide +kernel) (by decide)
    exact ⟨⟨[.int], [.int, .int]⟩,
      .on (.simple Opcode.iconst0) pushed (by decide) (by decide +kernel) (by decide), by decide⟩

end ClassWeave
