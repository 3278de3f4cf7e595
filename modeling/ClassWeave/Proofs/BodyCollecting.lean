/-
# ClassWeave.Proofs.BodyCollecting -- what is collected of a body that was told

A body that is told to its end and collected has every instruction behind its label and its
lines, the label of the end, the blocks in the order of the exception table, and the frame of
each instruction that has one (`MethodBody.collects_of_told`).  No label is made up for a
frame, since a frame is told right behind the label and the lines of its instruction.

The labels of the nodes are those of the offsets of the instructions and of the end, each
once (`CodeAttribute.label_mem_toldNodes`).
-/
import ClassWeave.Proofs.MethodTelling

set_option autoImplicit false

namespace ClassWeave

/-! ## The nodes of a body -/

namespace CodeAttribute

/-- The nodes of an instruction that has lines: its label, the lines and itself. -/
def lineNodes (rows : List LineEntry) (item : Nat × Instruction) : List Node :=
  .label ⟨item.1⟩ :: ((rows.filter fun row => row.start.toNat == item.1).map fun row =>
    Node.line row.number ⟨item.1⟩) ++ [.insn item.2.normal]

/-- The frame at an instruction, if it has one. -/
def frameAt? (frames : List PinnedFrame) (item : Nat × Instruction) : Option PinnedFrame :=
  (frames.filter fun frame => frame.label.id == item.1).getLast?

/-- The nodes of a body: its instructions in their order, and the label of the end. -/
def toldNodes (rows : List LineEntry) (items : List (Nat × Instruction)) (length : Nat) :
    List Node :=
  items.flatMap (lineNodes rows) ++ [.label ⟨length⟩]

variable (rows : List LineEntry) (items : List (Nat × Instruction)) (length : Nat)

theorem instructions_lineNodes (item : Nat × Instruction) :
    Snippet.instructions (lineNodes rows item) = [item.2.normal] := by
  have lines : ((rows.filter fun row => row.start.toNat == item.1).map fun row =>
      Node.line row.number ⟨item.1⟩).filterMap Node.instruction? = [] := by
    simp [Node.instruction?]
  rw [Snippet.instructions, lineNodes, List.cons_append, List.filterMap_cons_none rfl,
    List.filterMap_append, lines]
  rfl

theorem instructions_flatMap : Snippet.instructions (items.flatMap (lineNodes rows)) =
    items.map fun item => item.2.normal := by
  rw [Snippet.instructions, List.filterMap_flatMap, List.map_eq_flatMap]
  exact congrArg (List.flatMap · items) (funext (instructions_lineNodes rows))

theorem instructions_toldNodes : Snippet.instructions (toldNodes rows items length) =
    items.map fun item => item.2.normal := by
  rw [toldNodes, Snippet.instructions, List.filterMap_append, ← Snippet.instructions,
    instructions_flatMap]
  exact List.append_nil _

theorem label_mem_lineNodes {label : Label} {item : Nat × Instruction} :
    .label label ∈ lineNodes rows item ↔ label.id = item.1 := by
  cases label
  simp [lineNodes]

/-- Only the offsets of instructions and of the end have a label. -/
theorem label_mem_toldNodes {label : Label} :
    .label label ∈ toldNodes rows items length ↔ label.id ∈ items.map Prod.fst ++ [length] := by
  cases label
  simp only [toldNodes, List.mem_append, List.mem_flatMap, label_mem_lineNodes, List.mem_map,
    List.mem_singleton, Node.label.injEq, Label.mk.injEq, eq_comm]

end CodeAttribute

/-! ## Collecting what is told -/

namespace MethodBody

open CodeAttribute

theorem foldl_add_lines (place : Label) : ∀ (numbers : List UInt16) (body : MethodBody),
    (numbers.map fun number => MethodEvent.line number place).foldl add body =
      { body with nodes := body.nodes ++ (numbers.map (Node.line · place)).toArray }
  | [], body => by simp
  | number :: numbers, body => by
    rw [List.map_cons, List.foldl_cons, foldl_add_lines place numbers]
    simp [add]

theorem foldl_add_blocks : ∀ (blocks : List TryBlock) (body : MethodBody),
    (blocks.map MethodEvent.tryBlock).foldl add body =
      { body with tryBlocks := body.tryBlocks ++ blocks.toArray }
  | [], body => by simp
  | block :: blocks, body => by
    rw [List.map_cons, List.foldl_cons, foldl_add_blocks blocks]
    simp [add]

theorem foldl_add_variables : ∀ (declared : List Variable) (body : MethodBody),
    (declared.map MethodEvent.variable).foldl add body =
      { body with declared := body.declared ++ declared.toArray }
  | [], body => by simp
  | first :: declared, body => by
    rw [List.map_cons, List.foldl_cons, foldl_add_variables declared]
    simp [add]

/-- An instruction is collected with its label, its lines and its frame. -/
theorem foldl_add_instruction (rows : List LineEntry) (frames : List PinnedFrame)
    (item : Nat × Instruction) (body : MethodBody) :
    (tellInstruction (linesByOffset rows) (framesByOffset frames) item.1 item.2).foldl add body =
      { body with
        nodes := body.nodes ++ (lineNodes rows item).toArray
        frames := body.frames ++ (frameAt? frames item).toList.toArray
        here := none } := by
  have lines := getElem?_linesByOffset rows item.1
  have frame := getElem?_framesByOffset frames item.1
  rw [tellInstruction_eq, asides, lines, List.foldl_cons, List.foldl_append, List.foldl_append,
    foldl_add_lines, frame]
  cases found : (frames.filter fun frame => frame.label.id == item.1).getLast? with
  | none => simp [add, placeLabel, lineNodes, frameAt?, found, Function.comp_def]
  | some own =>
    have label : own.label = ⟨item.1⟩ := by
      have at_ := (List.mem_filter.1 (List.mem_of_getLast? found)).2
      exact congrArg Label.mk (beq_iff_eq.1 at_)
    have same : (⟨⟨item.1⟩, own.locals, own.stack⟩ : PinnedFrame) = own := by rw [← label]
    simp [add, addFrame, placeLabel, lineNodes, frameAt?, found, same, Function.comp_def]

theorem foldl_add_instructions (rows : List LineEntry) (frames : List PinnedFrame) :
    ∀ (items : List (Nat × Instruction)) (body : MethodBody), body.here = none →
      (items.flatMap fun (offset, insn) =>
          tellInstruction (linesByOffset rows) (framesByOffset frames) offset insn).foldl add body =
        { body with
          nodes := body.nodes ++ (items.flatMap (lineNodes rows)).toArray
          frames := body.frames ++ (items.filterMap (frameAt? frames)).toArray }
  | [], body, _ => by simp
  | item :: items, body, nowhere => by
    rw [List.flatMap_cons, List.foldl_append, foldl_add_instruction,
      foldl_add_instructions rows frames items _ rfl, List.flatMap_cons]
    cases found : frameAt? frames item <;> simp [found, nowhere]

/-- The body that is collected has just what was told. -/
structure Collects {code : CodeAttribute} {entries : Entries}
    {className methodName descriptor : String} {isStatic : Bool} {events : List MethodEvent}
    (body : MethodBody)
    (told : code.TellsBody entries className methodName descriptor isStatic events) : Prop where
  nodes : body.code = toldNodes told.lines told.items code.code.length
  blocks : body.tryBlocks.toList = told.blocks
  frames : body.frames.toList = told.items.filterMap (frameAt? told.frames)
  declared : body.declared.toList = told.declared
  maxStack : body.maxStack = code.maxStack
  maxLocals : body.maxLocals = code.maxLocals

theorem collects_of_told {code : CodeAttribute} {entries : Entries}
    {className methodName descriptor : String} {isStatic : Bool} {events : List MethodEvent}
    (told : code.TellsBody entries className methodName descriptor isStatic events) :
    (ofEvents (events ++ [.finish])).Collects told := by
  have whole : ofEvents (events ++ [.finish]) =
      ⟨(toldNodes told.lines told.items code.code.length).toArray,
        told.blocks.toArray, (told.items.filterMap (frameAt? told.frames)).toArray,
        told.declared.toArray, code.maxStack, code.maxLocals, some ⟨code.code.length⟩⟩ := by
    simp only [ofEvents, told.whole, List.foldl_append, List.foldl_cons, List.foldl_nil,
      foldl_add_blocks, foldl_add_variables]
    rw [foldl_add_instructions _ _ _ _ rfl]
    simp [add, placeLabel, empty, toldNodes]
  rw [whole]
  exact ⟨rfl, rfl, rfl, rfl, rfl, rfl⟩

end MethodBody

end ClassWeave
