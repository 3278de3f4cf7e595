/-
# ClassWeave.Proofs.Moments -- what the simulation of a method goes through

A rewrite places labels, is asked for frames, and runs instructions.  Its `history` are
these moments in their order, each with the rewrite as it was just then, so that later
states can be compared with all that happened before.  A property of a rewrite and its
past is `Followed` if every such moment upholds it; then it holds whenever one comes
(`Followed.before`) and in the end (`Followed.after`).

The first of these properties is what a rewrite keeps in mind: `Recalls` says that its
code are the labels placed and the instructions run, that each label has the number of
instructions run before it, and that the locals before each of them are remembered.  So
in assembled code a label has the offset of the first instruction run after it
(`Recalls.offset_of_label`).
-/
import ClassWeave.Proofs.Assembling
import ClassWeave.Proofs.RewriteTrace

set_option autoImplicit false

namespace ClassWeave

inductive Moment
  | placed (label : Label) (before : MethodRewrite)
  | asked (label : Label) (before : MethodRewrite)
  | run (insn : Instruction) (position : Label) (before : MethodRewrite)

namespace Moment

def before : Moment → MethodRewrite
  | placed _ before | asked _ before | run _ _ before => before

def label? : Moment → Option Label
  | placed label _ => some label
  | _ => none

/-- The locals before the instruction that is run. -/
def locals? : Moment → Option (List FrameType)
  | run _ _ before => some before.current.locals
  | _ => none

def node? : Moment → Option Node
  | placed label _ => some (.label label)
  | asked _ _ => none
  | run insn _ _ => some (.insn insn.normal)

end Moment

/-- Where a past with one moment more can be split: at that moment, or before it. -/
theorem Moment.snoc_split {past early late : List Moment} {last moment : Moment}
    (split : past ++ [last] = early ++ moment :: late) :
    past = early ∧ last = moment ∧ late = [] ∨
      ∃ rest, late = rest ++ [last] ∧ past = early ++ moment :: rest := by
  rcases List.eq_nil_or_concat late with rfl | ⟨rest, other, rfl⟩
  · obtain ⟨same, last⟩ := List.append_inj' split rfl
    exact .inl ⟨same, List.singleton_inj.1 last, rfl⟩
  · rw [List.concat_eq_append, ← List.cons_append, ← List.append_assoc] at split
    obtain ⟨same, last⟩ := List.append_inj' split rfl
    rw [List.singleton_inj.1 last]
    exact .inr ⟨rest, List.concat_eq_append .., same⟩

namespace MethodRewrite

/-- The label that is made if none stands here. -/
def labelMoments (rewrite : MethodRewrite) : List Moment :=
  match rewrite.group with
  | [] => [.placed rewrite.freshLabel.1 rewrite.freshLabel.2]
  | _ :: _ => []

def instructionMoments (rewrite : MethodRewrite) (insn : Instruction) : List Moment :=
  if rewrite.ledger.phase ≠ .open then []
  else
    (if insn.opcode = Opcode.new then rewrite.labelMoments else [])
      ++ [.run insn (rewrite.position insn).1 (rewrite.position insn).2]

def eventMoments (rewrite : MethodRewrite) : MethodEvent → List Moment
  | .frame _ _ => if rewrite.frameRequestedHere then [] else rewrite.labelMoments
  | .label label => [.placed label rewrite]
  | .insn insn => rewrite.instructionMoments insn
  | _ => []

/-- A frame that is asked for and was not before, at a label that stands here. -/
def askMoments (rewrite : MethodRewrite) (label : Label) (wanted : FrameRequest) : List Moment :=
  match rewrite.ledger.request label wanted with
  | .ok (true, ledger) =>
    if rewrite.group.contains label then
      [.asked label { rewrite with injected := true, ledger := ledger }]
    else []
  | _ => []

def moments (rewrite : MethodRewrite) : Action → List Moment
  | .own event => rewrite.eventMoments event
  | .request (.event event) => eventMoments { rewrite with injected := true } event
  | .request (.store type) =>
    match rewrite.allocate type with
    | (.ok slot, reached) => reached.instructionMoments (.var type.storeOpcode slot)
    | (.error _, _) => []
  | .request (.frame label wanted) => rewrite.askMoments label wanted
  | .request .label | .request (.slot _) | .request (.handler _) | .request (.fault _) => []

def history : MethodRewrite → List Action → List Moment
  | _, [] => []
  | rewrite, action :: rest => rewrite.moments action ++ (rewrite.act action).history rest

theorem history_append (early late : List Action) : ∀ rewrite : MethodRewrite,
    rewrite.history (early ++ late) =
      rewrite.history early ++ (early.foldl act rewrite).history late := by
  induction early with
  | nil => exact fun _ => rfl
  | cons action early ih =>
    intro rewrite
    rw [List.cons_append, history, ih, history, List.append_assoc, List.foldl_cons]

/-! ## Properties that every moment upholds -/

/-- The code without the lines. -/
def bare (rewrite : MethodRewrite) : List Node :=
  rewrite.body.code.filter fun node => node.line?.isNone

/-- What labels and instructions leave behind. -/
def memory (rewrite : MethodRewrite) :=
  (rewrite.saved, rewrite.positions, rewrite.snapshots, rewrite.target.hierarchy,
    rewrite.bare)

/-- The rewrite that has run an instruction and is about to leave it. -/
def ran (rewrite : MethodRewrite) (insn : Instruction) (position : Label) : MethodRewrite :=
  { rewrite with snapshots := rewrite.snapshots.push rewrite.current.locals }.simulate insn position

/-- The instruction run at its place. -/
def pass (rewrite : MethodRewrite) (insn : Instruction) (position : Label) : MethodRewrite :=
  ((rewrite.ran insn position).leave insn).putInstruction insn

/-- A property of the past and the rewrite that comes of it. -/
structure Followed (good : List Moment → MethodRewrite → Prop) : Prop where
  quiet : ∀ {past : List Moment} {before after : MethodRewrite}, good past before →
    after.memory = before.memory → good past after
  placed : ∀ {past : List Moment} {rewrite : MethodRewrite} (label : Label), good past rewrite →
    good (past ++ [.placed label rewrite]) (rewrite.placeLabel label)
  asked : ∀ {past : List Moment} {rewrite : MethodRewrite} (label : Label), good past rewrite →
    good (past ++ [.asked label rewrite]) rewrite
  run : ∀ {past : List Moment} {rewrite : MethodRewrite} (insn : Instruction) (position : Label),
    good past rewrite → good (past ++ [.run insn position rewrite]) (rewrite.pass insn position)

theorem memory_endPrefix (rewrite : MethodRewrite) : rewrite.endPrefix.memory = rewrite.memory := by
  unfold endPrefix
  split <;> rfl

theorem memory_pin (rewrite : MethodRewrite) (frame : Frame) (label : Label) (requested : Bool) :
    let moved := { rewrite.moveTo frame with reachable := true, frameRequestedHere := requested }
    (moved.noteDepth.recordFrame label).memory = rewrite.memory := rfl

theorem memory_grantFrame (rewrite : MethodRewrite) (label : Label) (wanted : FrameRequest) :
    (rewrite.grantFrame label wanted).memory = rewrite.memory :=
  (memory_pin _ _ label true).trans (memory_endPrefix _)

namespace Followed

variable {good : List Moment → MethodRewrite → Prop} {past : List Moment} {rewrite : MethodRewrite}

theorem labelHere (followed : Followed good) (holds : good past rewrite) :
    good (past ++ rewrite.labelMoments) rewrite.labelHere.2 := by
  unfold labelMoments
  cases group : rewrite.group with
  | cons label others =>
    rw [labelHere_of_group rewrite group, List.append_nil]
    exact holds
  | nil =>
    rw [labelHere_of_empty rewrite group]
    have fresh : good past rewrite.freshLabel.2 := followed.quiet holds rfl
    exact followed.placed rewrite.freshLabel.1 fresh

theorem instruction (followed : Followed good) (holds : good past rewrite) (insn : Instruction) :
    good (past ++ rewrite.instructionMoments insn) (rewrite.instruction insn) := by
  unfold instructionMoments MethodRewrite.instruction
  split
  · rw [List.append_nil]
    exact followed.quiet holds rfl
  · rw [← List.append_assoc]
    refine followed.run insn _ ?_
    -- With a label already here none is made; without one only `new` makes one.
    cases group : rewrite.group with
    | cons label others =>
      have here : rewrite.position insn = (label, rewrite) := by
        unfold position
        rw [group]
      have none_ : rewrite.labelMoments = [] := by
        unfold labelMoments
        rw [group]
      rw [here, none_, ite_self, List.append_nil]
      exact holds
    | nil =>
      have here : rewrite.position insn =
          if insn.opcode = Opcode.new then rewrite.labelHere else (⟨0⟩, rewrite) := by
        unfold position
        rw [group]
      rw [here]
      split
      · exact followed.labelHere holds
      · rw [List.append_nil]
        exact holds

theorem event (followed : Followed good) (holds : good past rewrite) (event : MethodEvent) :
    good (past ++ rewrite.eventMoments event) (rewrite.step event) := by
  cases event with
  | frame locals stack =>
    show good (past ++ ite _ _ _) (rewrite.originalFrame locals stack)
    unfold originalFrame
    split
    · rw [List.append_nil]
      exact holds
    · refine followed.quiet (followed.labelHere holds) ?_
      generalize rewrite.labelHere = here
      exact (memory_pin here.2.endPrefix _ here.1 _).trans (memory_endPrefix here.2)
  | label label => exact followed.placed label holds
  | insn insn => exact followed.instruction holds insn
  | finish =>
    show good (past ++ []) rewrite.close
    rw [List.append_nil]
    unfold close
    split
    · exact holds
    · split
      · exact followed.quiet holds rfl
      · simp only
        split
        · exact followed.quiet holds rfl
        · refine followed.quiet holds ?_
          unfold settle memory bare
          simp only
          split
          · rfl
          · split <;> rfl
  | line number start =>
    show good (past ++ []) _
    rw [List.append_nil]
    refine followed.quiet holds ?_
    simp [memory, bare, MethodRewrite.step, MethodBody.add, MethodBody.code, Node.line?]
  | sizes | maxs | tryBlock | «variable» =>
    show good (past ++ []) _
    rw [List.append_nil]
    exact followed.quiet holds rfl

theorem requestFrame (followed : Followed good) (holds : good past rewrite) (label : Label)
    (wanted : FrameRequest) : good (past ++ rewrite.askMoments label wanted)
      (rewrite.requestFrame label wanted).2 := by
  unfold askMoments MethodRewrite.requestFrame
  cases opened : rewrite.ledger.ensureOpen with
  | error cause =>
    have refused : rewrite.ledger.request label wanted = .error cause := by
      unfold Ledger.request
      rw [opened]
      rfl
    rw [refused, List.append_nil]
    exact holds
  | ok =>
    cases here : rewrite.group.contains label with
    | false =>
      -- The ledger may accept it, but no frame is granted where the label does not stand.
      have none_ : (match rewrite.ledger.request label wanted with
          | .ok (true, ledger) =>
            if false = true then
              [Moment.asked label { rewrite with injected := true, ledger := ledger }]
            else []
          | _ => []) = [] := by
        split <;> rfl
      rw [none_, List.append_nil]
      simp only [here]
      exact followed.quiet holds rfl
    | true =>
      simp only [here]
      rcases rewrite.ledger.request label wanted with cause | ⟨_ | _, ledger⟩
      · simp only [List.append_nil]
        exact followed.quiet holds rfl
      · simp only [List.append_nil]
        exact followed.quiet holds rfl
      · have booked : good past { rewrite with injected := true, ledger := ledger } :=
          followed.quiet holds rfl
        refine followed.quiet (followed.asked label booked) ?_
        exact memory_grantFrame _ label wanted

theorem action (followed : Followed good) (holds : good past rewrite) (action : Action) :
    good (past ++ rewrite.moments action) (rewrite.act action) := by
  have allocated (value : ValueType) : good past (rewrite.allocate value).2 := by
    refine followed.quiet holds ?_
    unfold allocate
    simp only
    split <;> rfl
  cases action with
  | own event => exact followed.event holds event
  | request request =>
    cases request with
    | event event =>
      have marked : good past { rewrite with injected := true } := followed.quiet holds rfl
      exact followed.event marked event
    | label | fault =>
      show good (past ++ []) _
      rw [List.append_nil]
      exact followed.quiet holds rfl
    | slot value =>
      show good (past ++ []) (rewrite.allocate value).2
      rw [List.append_nil]
      exact allocated value
    | store value =>
      have taken := allocated value
      simp only [moments, act, perform, storeNew]
      rcases answer : rewrite.allocate value with ⟨_ | own, reached⟩
      all_goals rw [answer] at taken
      · rw [List.append_nil]
        exact taken
      · exact followed.instruction taken _
    | handler block =>
      show good (past ++ []) (rewrite.addHandler block).2
      rw [List.append_nil]
      refine followed.quiet holds ?_
      unfold addHandler
      simp only
      split <;> rfl
    | frame label wanted =>
      have faulty {past : List Moment} (answer : Except InstrumentError Unit × MethodRewrite)
          (asked : good past answer.2) : good past (keepFault answer).2 := by
        obtain ⟨_ | _, after⟩ := answer
        · exact followed.quiet asked rfl
        · exact asked
      exact faulty _ (followed.requestFrame holds label wanted)

theorem actions (followed : Followed good) (actions : List Action) :
    ∀ {past : List Moment} {rewrite : MethodRewrite}, good past rewrite →
      good (past ++ rewrite.history actions) (actions.foldl act rewrite) := by
  induction actions with
  | nil =>
    intro past rewrite holds
    rw [history, List.append_nil]
    exact holds
  | cons action rest ih =>
    intro past rewrite holds
    rw [history, ← List.append_assoc]
    exact ih (followed.action holds action)

theorem after (followed : Followed good) (start : good [] rewrite) (actions : List Action) :
    good (rewrite.history actions) (actions.foldl act rewrite) :=
  followed.actions actions start

/-- The property held at every moment of the past. -/
theorem always (followed : Followed good) : Followed fun past rewrite => good past rewrite ∧
    ∀ early moment late, past = early ++ moment :: late → good early moment.before := by
  have snoc {past : List Moment} {moment : Moment} (own : good past moment.before)
      (others : ∀ early moment late, past = early ++ moment :: late → good early moment.before) :
      ∀ early other late, past ++ [moment] = early ++ other :: late → good early other.before := by
    intro early other late same
    rcases Moment.snoc_split same with ⟨rfl, rfl, _⟩ | ⟨rest, _, same⟩
    · exact own
    · exact others _ _ _ same
  exact {
    quiet := fun holds same => ⟨followed.quiet holds.1 same, holds.2⟩
    placed := fun label holds => ⟨followed.placed label holds.1, snoc holds.1 holds.2⟩
    asked := fun label holds => ⟨followed.asked label holds.1, snoc holds.1 holds.2⟩
    run := fun insn position holds =>
      ⟨followed.run insn position holds.1, snoc holds.1 holds.2⟩ }

theorem before (followed : Followed good) (start : good [] rewrite) {actions : List Action}
    {early late : List Moment} {moment : Moment}
    (split : rewrite.history actions = early ++ moment :: late) : good early moment.before := by
  have first : good [] rewrite ∧ ∀ early moment late, [] = early ++ moment :: late →
      good early moment.before := by
    refine ⟨start, fun early moment late same => ?_⟩
    cases early <;> cases same
  exact (followed.always.after first actions).2 early moment late split

end Followed

/-! ## What a rewrite keeps in mind -/

/-- What running an instruction leaves alone, but for the instruction being written down. -/
def places (rewrite : MethodRewrite) :=
  (rewrite.positions, rewrite.snapshots, rewrite.target.hierarchy, rewrite.body)

section Places

variable (rewrite : MethodRewrite)

theorem places_carry (label : Label) : (rewrite.carry label).places = rewrite.places := by
  unfold carry
  split
  · rfl
  · split <;> rfl

theorem places_foldl_carry (labels : List Label) :
    (labels.foldl carry rewrite).places = rewrite.places := by
  induction labels generalizing rewrite with
  | nil => rfl
  | cons label labels ih => rw [List.foldl_cons, ih, places_carry]

theorem places_endPrefix : rewrite.endPrefix.places = rewrite.places := by
  unfold endPrefix
  split <;> rfl

theorem places_simulate (insn : Instruction) (position : Label) :
    (rewrite.simulate insn position).places = rewrite.places := by
  unfold simulate
  split
  · split <;> rfl
  · rfl

theorem places_leave (insn : Instruction) : (rewrite.leave insn).places = rewrite.places := by
  have carried : (if rewrite.reachable then insn.targets.foldl carry rewrite else rewrite).places =
      rewrite.places := by
    split
    · exact places_foldl_carry _ _
    · rfl
  unfold leave
  simp only
  split <;> split <;> first
    | exact carried
    | exact (places_endPrefix _).trans carried

theorem places_pass (insn : Instruction) (position : Label) :
    (rewrite.pass insn position).places = (rewrite.positions,
      rewrite.snapshots.push rewrite.current.locals, rewrite.target.hierarchy,
      rewrite.body.add (.ofInstruction insn)) := by
  let noted := { rewrite with snapshots := rewrite.snapshots.push rewrite.current.locals }
  have kept : ((rewrite.ran insn position).leave insn).places = noted.places :=
    (places_leave _ insn).trans (places_simulate noted insn position)
  simp only [places, Prod.mk.injEq] at kept ⊢
  obtain ⟨positions, snapshots, hierarchy, body⟩ := kept
  exact ⟨positions, snapshots, hierarchy, by rw [← body]; rfl⟩

theorem places_placeLabel (label : Label) :
    (rewrite.placeLabel label).places = (rewrite.positions.insert label rewrite.snapshots.size,
      rewrite.snapshots, rewrite.target.hierarchy, rewrite.body.placeLabel label) := by
  unfold placeLabel
  simp only
  split <;> rfl

end Places

/-- Code, labels and locals are those of the past. -/
structure Recalls (past : List Moment) (rewrite : MethodRewrite) : Prop where
  code : rewrite.bare = past.filterMap Moment.node?
  snapshots : rewrite.snapshots.toList = past.filterMap Moment.locals?
  unplaced : ∀ label, label ∉ past.filterMap Moment.label? → rewrite.positions[label]? = none
  position : ∀ early label before late, past = early ++ .placed label before :: late →
    label ∉ late.filterMap Moment.label? →
    rewrite.positions[label]? = some (early.filterMap Moment.locals?).length

namespace Recalls

variable {past : List Moment} {rewrite after : MethodRewrite}

theorem of_memory (recalls : Recalls past rewrite) (same : after.memory = rewrite.memory) :
    Recalls past after := by
  simp only [memory, Prod.mk.injEq] at same
  obtain ⟨_, positions, snapshots, _, code⟩ := same
  exact ⟨code ▸ recalls.code, snapshots ▸ recalls.snapshots, positions ▸ recalls.unplaced,
    positions ▸ recalls.position⟩

end Recalls

theorem followed_recalls : Followed Recalls where
  quiet recalls same := recalls.of_memory same
  placed := by
    intro past rewrite label recalls
    have same := rewrite.places_placeLabel label
    simp only [places, Prod.mk.injEq] at same
    obtain ⟨positions, snapshots, _, body⟩ := same
    have size : rewrite.snapshots.size = (past.filterMap Moment.locals?).length := by
      rw [← recalls.snapshots, Array.length_toList]
    refine ⟨?_, ?_, ?_, ?_⟩
    · rw [bare, body, List.filterMap_append, ← recalls.code]
      simp [bare, MethodBody.placeLabel, MethodBody.code, Node.line?, Moment.node?]
    · rw [snapshots, List.filterMap_append, ← recalls.snapshots]
      exact (List.append_nil _).symm
    · intro other fresh
      simp only [List.filterMap_append, List.mem_append, not_or] at fresh
      have apart : label ≠ other := by
        rintro rfl
        exact fresh.2 List.mem_cons_self
      rw [positions, Std.TreeMap.getElem?_insert, if_neg (by rwa [Std.compare_eq_iff_eq])]
      exact recalls.unplaced other fresh.1
    · intro early other before late split last
      rw [positions, Std.TreeMap.getElem?_insert]
      rcases Moment.snoc_split split with ⟨rfl, same, _⟩ | ⟨rest, rfl, same⟩
      · cases same
        rw [if_pos (Std.compare_eq_iff_eq.2 rfl), size]
      · -- A label counts where it was placed last, so an older one of that name does not concern us.
        simp only [List.filterMap_append, List.mem_append, not_or] at last
        have apart : label ≠ other := by
          rintro rfl
          exact last.2 List.mem_cons_self
        rw [if_neg (by rwa [Std.compare_eq_iff_eq])]
        exact recalls.position early other before rest same last.1
  asked := by
    intro past rewrite label recalls
    have nothing {α : Type} (f : Moment → Option α) (none_ : f (Moment.asked label rewrite) = none) :
        (past ++ [Moment.asked label rewrite]).filterMap f = past.filterMap f := by
      rw [List.filterMap_append, List.filterMap_cons_none none_]
      exact List.append_nil _
    refine ⟨?_, ?_, ?_, ?_⟩
    · rw [nothing Moment.node? rfl]
      exact recalls.code
    · rw [nothing Moment.locals? rfl]
      exact recalls.snapshots
    · intro other fresh
      rw [nothing Moment.label? rfl] at fresh
      exact recalls.unplaced other fresh
    · intro early other before late split last
      rcases Moment.snoc_split split with ⟨_, same, _⟩ | ⟨rest, rfl, same⟩
      · cases same
      · simp only [List.filterMap_append, List.mem_append, not_or] at last
        exact recalls.position early other before rest same last.1
  run := by
    intro past rewrite insn position recalls
    have same := rewrite.places_pass insn position
    simp only [places, Prod.mk.injEq] at same
    obtain ⟨positions, snapshots, _, body⟩ := same
    refine ⟨?_, ?_, ?_, ?_⟩
    · rw [bare, body, List.filterMap_append, ← recalls.code]
      simp [bare, MethodBody.add, MethodBody.code, Node.line?, Moment.node?,
        MethodEvent.ofInstruction]
    · rw [snapshots, List.filterMap_append, ← recalls.snapshots, Array.toList_push]
      rfl
    · intro other fresh
      simp only [List.filterMap_append, List.mem_append, not_or] at fresh
      rw [positions]
      exact recalls.unplaced other fresh.1
    · intro early other before late split last
      rw [positions]
      rcases Moment.snoc_split split with ⟨_, same, _⟩ | ⟨rest, rfl, same⟩
      · cases same
      · simp only [List.filterMap_append, List.mem_append, not_or] at last
        exact recalls.position early other before rest same last.1

theorem recalls_start (target : RewriteTarget) (method : MethodContext) :
    Recalls [] (start target method) := by
  refine ⟨rfl, rfl, fun _ _ => rfl, fun early label before late split => ?_⟩
  cases early <;> cases split

/-! ## Assembled code -/

namespace Recalls

variable {past : List Moment} {rewrite : MethodRewrite} {first entries : Entries}
  {layout : Layout} {assembled : AssembledCode}

theorem length_instructions (past : List Moment) :
    (Snippet.instructions (past.filterMap Moment.node?)).length =
      (past.filterMap Moment.locals?).length := by
  induction past with
  | nil => rfl
  | cons moment past ih =>
    cases moment with
    | placed | asked => exact ih
    | run => exact congrArg Nat.succ ih

theorem label_node {label : Label} : .label label ∈ past.filterMap Moment.node? ↔
    label ∈ past.filterMap Moment.label? := by
  simp only [List.mem_filterMap]
  refine exists_congr fun moment => and_congr_right fun _ => ?_
  cases moment <;> simp [Moment.node?, Moment.label?]

/-- Lines are no instructions. -/
theorem instructions_bare (nodes : List Node) :
    Snippet.instructions (nodes.filter fun node => node.line?.isNone) =
      Snippet.instructions nodes := by
  induction nodes with
  | nil => rfl
  | cons node nodes ih =>
    cases node with
    | line => exact ih
    | label => exact ih
    | insn insn => exact congrArg (insn :: ·) ih

/-- A label has the offset of the first instruction that is run after it is placed for the last
time, or that of the end. -/
theorem offset_of_label (recalls : Recalls past rewrite)
    (assembles : layout.Assembles first entries rewrite.body.code assembled)
    {early late : List Moment} {label : Label} {before : MethodRewrite}
    (split : past = early ++ .placed label before :: late)
    (last : label ∉ late.filterMap Moment.label?) :
    ∃ offset, assembled.offsetOf label = .ok offset ∧
      (layout.offsets ++ [assembled.code.length])[(early.filterMap Moment.locals?).length]? =
        some offset := by
  have code := recalls.code
  rw [split, List.filterMap_append, List.filterMap_cons_some (by rfl)] at code
  obtain ⟨first, rest, whole, early_, rest_⟩ := List.filter_eq_append_iff.1 code
  obtain ⟨lines, others, rfl, quiet, _, late_⟩ := List.filter_eq_cons_iff.1 rest_
  rw [whole, ← List.append_assoc] at assembles
  have again : .label label ∉ others := by
    intro among
    refine last (label_node.1 ?_)
    rw [← late_]
    exact List.mem_filter.2 ⟨among, rfl⟩
  obtain ⟨offset, known, place⟩ := assembles.offset_of_label again
  refine ⟨offset, known, ?_⟩
  have none_ : lines.filter (fun node => node.line?.isNone) = [] :=
    List.filter_eq_nil_iff.2 quiet
  have count : (Snippet.instructions (first ++ lines)).length =
      (early.filterMap Moment.locals?).length := by
    rw [← length_instructions, ← early_, ← instructions_bare, List.filter_append, none_,
      List.append_nil]
  rwa [count] at place

/-- Only labels that are placed have an offset. -/
theorem placed_of_offset (recalls : Recalls past rewrite)
    (assembles : layout.Assembles first entries rewrite.body.code assembled) {label : Label}
    {offset : Nat} (known : assembled.offsetOf label = .ok offset) :
    label ∈ past.filterMap Moment.label? := by
  rw [assembles.offsetOf_eq_ok] at known
  have placed : (layout.labels[label]?).isSome := by
    rw [known]
    rfl
  rcases assembles.lays.label_placed placed with among | none_
  · refine label_node.1 ?_
    rw [← recalls.code]
    exact List.mem_filter.2 ⟨among, rfl⟩
  · simp [Layout.empty] at none_

end Recalls

end MethodRewrite

end ClassWeave
