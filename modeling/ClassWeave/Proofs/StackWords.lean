/-
# ClassWeave.Proofs.StackWords -- stack instructions move words

The virtual machine defines the instructions that copy and move what is on top of the
operand stack by words: a long or double is two of them, and an instruction must not
come between the two.  The simulation has one entry for each value instead, so it goes by
the widths of the values on top.  Here both are put side by side: `Shuffle.moveWords` is
the definition by words, `StackWord.ofStack` takes the values of a stack for their words,
and wherever an instruction splits no value the simulation does what the machine does
(`Frame.shuffle_moves_words`).  The stacks that an instruction splits no value of are just
those whose words make up values again when it is done (`Shuffle.unsplit_iff`).
-/
import ClassWeave.Frame.Height
import Mathlib.Data.List.Basic

set_option autoImplicit false

namespace ClassWeave

/-- A word on the operand stack: a narrow value, or one half of a wide one. -/
inductive StackWord
  | whole (type : FrameType)
  | upper (type : FrameType)
  | lower (type : FrameType)
deriving DecidableEq, Repr

namespace StackWord

def ofType (type : FrameType) : List StackWord :=
  if type.isWide then [upper type, lower type] else [whole type]

/-- The words of the values on a stack, the top first. -/
def ofStack (stack : List FrameType) : List StackWord := stack.flatMap ofType

theorem ofStack_cons (type : FrameType) (stack : List FrameType) :
    ofStack (type :: stack) = ofType type ++ ofStack stack := List.flatMap_cons

theorem ofStack_append (above below : List FrameType) :
    ofStack (above ++ below) = ofStack above ++ ofStack below := List.flatMap_append

theorem length_ofType (type : FrameType) : (ofType type).length = type.slots := by
  unfold ofType FrameType.slots
  split <;> rfl

/-- There are as many words as the values take slots. -/
theorem length_ofStack (stack : List FrameType) :
    (ofStack stack).length = FrameType.slotsOf stack := by
  induction stack with
  | nil => rfl
  | cons type stack ih =>
    rw [ofStack_cons, List.length_append, length_ofType, ih]
    rfl

/-- Whether words are those of values: the halves of a wide one stand together. -/
def WellPaired : List StackWord → Bool
  | [] => true
  | whole type :: rest => !type.isWide && WellPaired rest
  | upper type :: lower other :: rest => type == other && type.isWide && WellPaired rest
  | _ => false

theorem wellPaired_ofStack (stack : List FrameType) : WellPaired (ofStack stack) = true := by
  induction stack with
  | nil => rfl
  | cons type stack ih =>
    rw [ofStack_cons]
    unfold ofType
    split <;> simp_all [WellPaired]

/-- The upper half of a value does not stand on other values. -/
theorem not_wellPaired_upper {type : FrameType} {below : List StackWord}
    (paired : WellPaired below = true) : WellPaired (upper type :: below) = false := by
  cases below with
  | nil => rfl
  | cons word below =>
    cases word with
    | whole | upper => rfl
    | lower => cases paired

/-- Where the words below make up values, the stack can be cut between two of its values. -/
theorem cut_of_wellPaired : ∀ {stack : List FrameType} {count : Nat},
    count ≤ (ofStack stack).length → WellPaired ((ofStack stack).drop count) = true →
    ∃ above below, stack = above ++ below ∧ FrameType.slotsOf above = count
  | stack, 0, _, _ => ⟨[], stack, rfl, rfl⟩
  | [], count + 1, enough, _ => by cases enough
  | type :: stack, count + 1, enough, paired => by
    rw [ofStack_cons] at enough paired
    unfold ofType at enough paired
    cases wide : type.isWide <;> simp only [wide, if_true, if_false, Bool.false_eq_true,
      List.cons_append, List.nil_append, List.length_cons, List.drop_succ_cons] at enough paired
    · obtain ⟨above, below, rfl, size⟩ :=
        cut_of_wellPaired (Nat.le_of_succ_le_succ enough) paired
      refine ⟨type :: above, below, rfl, ?_⟩
      show type.slots + FrameType.slotsOf above = _
      rw [size, FrameType.slots, if_neg (by simp [wide]), Nat.add_comm]
    · cases count with
      | zero => cases paired
      | succ count =>
        obtain ⟨above, below, rfl, size⟩ :=
          cut_of_wellPaired (by omega : count ≤ (ofStack stack).length) paired
        refine ⟨type :: above, below, rfl, ?_⟩
        show type.slots + FrameType.slotsOf above = _
        rw [size, FrameType.slots, if_pos wide, Nat.add_comm]

end StackWord

open StackWord

namespace FrameType

theorem slotsOf_cons (type : FrameType) (types : List FrameType) :
    slotsOf (type :: types) = type.slots + slotsOf types := rfl

theorem slotsOf_eq_zero {types : List FrameType} (none_ : slotsOf types = 0) : types = [] := by
  cases types with
  | nil => rfl
  | cons type types =>
    rw [slotsOf_cons] at none_
    unfold slots at none_
    split at none_ <;> omega

/-- One word is one narrow value. -/
theorem slotsOf_eq_one {types : List FrameType} (one : slotsOf types = 1) :
    ∃ a, types = [a] ∧ a.isWide = false := by
  cases types with
  | nil => cases one
  | cons a types =>
    rw [slotsOf_cons, slots] at one
    cases wide : a.isWide <;> simp only [wide, if_true, if_false, Bool.false_eq_true] at one
    · exact ⟨a, by rw [slotsOf_eq_zero (by omega : slotsOf types = 0)], wide⟩
    · omega

/-- Two words are one wide value or two narrow ones. -/
theorem slotsOf_eq_two {types : List FrameType} (two : slotsOf types = 2) :
    (∃ a, types = [a] ∧ a.isWide = true) ∨
      ∃ a b, types = [a, b] ∧ a.isWide = false ∧ b.isWide = false := by
  cases types with
  | nil => cases two
  | cons a types =>
    rw [slotsOf_cons, slots] at two
    cases wide : a.isWide <;> simp only [wide, if_true, if_false, Bool.false_eq_true] at two
    · obtain ⟨b, rfl, narrow⟩ := slotsOf_eq_one (by omega : slotsOf types = 1)
      exact .inr ⟨a, b, rfl, wide, narrow⟩
    · exact .inl ⟨a, by rw [slotsOf_eq_zero (by omega : slotsOf types = 0)], wide⟩

end FrameType

namespace Shuffle

def opcode : Shuffle → Opcode
  | pop => Opcode.pop
  | pop2 => Opcode.pop2
  | dup => Opcode.dup
  | dupX1 => Opcode.dupX1
  | dupX2 => Opcode.dupX2
  | dup2 => Opcode.dup2
  | dup2X1 => Opcode.dup2X1
  | dup2X2 => Opcode.dup2X2
  | swap => Opcode.swap

/-- What the virtual machine makes of the words on the stack, if there are enough. -/
def moveWords {α : Type} : Shuffle → List α → Option (List α)
  | pop, _ :: s => some s
  | pop2, _ :: _ :: s => some s
  | dup, a :: s => some (a :: a :: s)
  | dupX1, a :: b :: s => some (a :: b :: a :: s)
  | dupX2, a :: b :: c :: s => some (a :: b :: c :: a :: s)
  | dup2, a :: b :: s => some (a :: b :: a :: b :: s)
  | dup2X1, a :: b :: c :: s => some (a :: b :: c :: a :: b :: s)
  | dup2X2, a :: b :: c :: d :: s => some (a :: b :: c :: d :: a :: b :: s)
  | swap, a :: b :: s => some (b :: a :: s)
  | _, _ => none

/-- How many words on top are moved or copied. -/
def moved : Shuffle → Nat
  | pop | dup | dupX1 | dupX2 | swap => 1
  | pop2 | dup2 | dup2X1 | dup2X2 => 2

/-- How many words below them they are moved past. -/
def passed : Shuffle → Nat
  | pop | pop2 | dup | dup2 => 0
  | dupX1 | dup2X1 | swap => 1
  | dupX2 | dup2X2 => 2

/-- The words that are moved and those that they are moved past are whole values. -/
def Unsplit (moves : Shuffle) (stack : List FrameType) : Prop :=
  ∃ above between below, stack = above ++ between ++ below ∧
    FrameType.slotsOf above = moves.moved ∧ FrameType.slotsOf between = moves.passed

/-- How many values the simulation takes for the words it needs, by their widths. -/
def entries (moves : Shuffle) (stack : List FrameType) : Nat :=
  let wide (place : Nat) : Bool := (stack[place]?).any FrameType.isWide
  match moves with
  | pop | dup => 1
  | dupX1 | swap => 2
  | pop2 | dup2 => if wide 0 then 1 else 2
  | dupX2 => if wide 1 then 2 else 3
  | dup2X1 => if wide 0 then 2 else 3
  | dup2X2 => if wide 0 then (if wide 1 then 2 else 3) else if wide 2 then 3 else 4

/-- What becomes of the two groups, whatever they are made of. -/
def arrange {α : Type} (moves : Shuffle) (above between below : List α) : List α :=
  match moves with
  | pop | pop2 => below
  | dup | dupX1 | dupX2 | dup2 | dup2X1 | dup2X2 => above ++ between ++ above ++ below
  | swap => between ++ above ++ below

variable (moves : Shuffle)

theorem moveWords_groups {α : Type} {above between : List α} (below : List α)
    (upper : above.length = moves.moved) (under : between.length = moves.passed) :
    moves.moveWords (above ++ between ++ below) = some (moves.arrange above between below) := by
  cases moves <;>
    simp only [moved, passed, List.length_eq_zero_iff, List.length_eq_one_iff,
      List.length_eq_two] at upper under
  case pop | dup =>
    obtain ⟨a, rfl⟩ := upper
    subst under
    rfl
  case pop2 | dup2 =>
    obtain ⟨a, b, rfl⟩ := upper
    subst under
    rfl
  case dupX1 | swap =>
    obtain ⟨a, rfl⟩ := upper
    obtain ⟨b, rfl⟩ := under
    rfl
  case dupX2 =>
    obtain ⟨a, rfl⟩ := upper
    obtain ⟨b, c, rfl⟩ := under
    rfl
  case dup2X1 =>
    obtain ⟨a, b, rfl⟩ := upper
    obtain ⟨c, rfl⟩ := under
    rfl
  case dup2X2 =>
    obtain ⟨a, b, rfl⟩ := upper
    obtain ⟨c, d, rfl⟩ := under
    rfl

/-- The simulation moves the same groups, one wide value standing for two words. -/
theorem apply_groups {above between : List FrameType} (below : List FrameType)
    (upper : FrameType.slotsOf above = moves.moved)
    (under : FrameType.slotsOf between = moves.passed) :
    moves.apply (above ++ between ++ below) = some (moves.arrange above between below) := by
  cases moves <;> simp only [moved, passed] at upper under
  case pop | dup =>
    obtain ⟨a, rfl, _⟩ := FrameType.slotsOf_eq_one upper
    obtain rfl := FrameType.slotsOf_eq_zero under
    rfl
  case pop2 | dup2 =>
    obtain rfl := FrameType.slotsOf_eq_zero under
    obtain ⟨a, rfl, wide⟩ | ⟨a, b, rfl, narrow, _⟩ := FrameType.slotsOf_eq_two upper
    · simp [apply, arrange, wide]
    · simp [apply, arrange, narrow]
  case dupX1 | swap =>
    obtain ⟨a, rfl, _⟩ := FrameType.slotsOf_eq_one upper
    obtain ⟨b, rfl, _⟩ := FrameType.slotsOf_eq_one under
    rfl
  case dupX2 =>
    obtain ⟨a, rfl, _⟩ := FrameType.slotsOf_eq_one upper
    obtain ⟨b, rfl, wide⟩ | ⟨b, c, rfl, narrow, _⟩ := FrameType.slotsOf_eq_two under
    · simp [apply, arrange, wide]
    · simp [apply, arrange, narrow]
  case dup2X1 =>
    obtain ⟨c, rfl, _⟩ := FrameType.slotsOf_eq_one under
    obtain ⟨a, rfl, wide⟩ | ⟨a, b, rfl, narrow, _⟩ := FrameType.slotsOf_eq_two upper
    · simp [apply, arrange, wide]
    · simp [apply, arrange, narrow]
  case dup2X2 =>
    obtain ⟨a, rfl, wide⟩ | ⟨a, b, rfl, narrow, _⟩ := FrameType.slotsOf_eq_two upper
    all_goals obtain ⟨c, rfl, wide'⟩ | ⟨c, d, rfl, narrow', _⟩ := FrameType.slotsOf_eq_two under
    · simp [apply, arrange, wide, wide']
    · simp [apply, arrange, wide, narrow']
    · simp [apply, arrange, narrow, wide']
    · simp [apply, arrange, narrow, narrow']

theorem ofStack_arrange (above between below : List FrameType) :
    ofStack (moves.arrange above between below) =
      moves.arrange (ofStack above) (ofStack between) (ofStack below) := by
  cases moves <;> simp only [arrange, ofStack_append]

variable {moves} {stack : List FrameType}

/-- Where no value is split, the words of the values that are left are what the words become. -/
theorem Unsplit.apply (whole : moves.Unsplit stack) : ∃ after, moves.apply stack = some after ∧
    moves.moveWords (ofStack stack) = some (ofStack after) := by
  obtain ⟨above, between, below, rfl, upper, under⟩ := whole
  refine ⟨_, moves.apply_groups below upper under, ?_⟩
  rw [ofStack_append, ofStack_append, ofStack_arrange]
  exact moves.moveWords_groups _ ((length_ofStack above).trans upper)
    ((length_ofStack between).trans under)

/-- The simulation runs out of values just where the stack has fewer than it takes. -/
theorem apply_eq_none_iff : moves.apply stack = none ↔ stack.length < moves.entries stack := by
  fun_cases apply moves stack
  case case24 none_ =>
    -- No row of the table fits: the stack has at most one value.
    rcases stack with _ | ⟨a, _ | ⟨b, below⟩⟩ <;> cases moves <;>
      simp_all [entries]
    all_goals split <;> decide
  all_goals simp_all [entries]

/-- Enough words are moved. -/
theorem moveWords_isSome {α : Type} {words : List α}
    (enough : moves.moved + moves.passed ≤ words.length) : moves.moveWords words ≠ none := by
  have split : words = words.take moves.moved ++ (words.drop moves.moved).take moves.passed ++
      (words.drop moves.moved).drop moves.passed := by
    rw [List.append_assoc, List.take_append_drop, List.take_append_drop]
  rw [split, moves.moveWords_groups]
  · exact Option.some_ne_none _
  · rw [List.length_take]
    omega
  · rw [List.length_take, List.length_drop]
    omega

/-- Where the simulation has enough values, the machine has enough words. -/
theorem slotsOf_of_apply {after : List FrameType} (done : moves.apply stack = some after) :
    moves.moved + moves.passed ≤ FrameType.slotsOf stack := by
  revert done
  fun_cases apply moves stack
  all_goals grind [moved, passed, FrameType.slotsOf_cons, FrameType.slots]

/-- Words that make up values before and afterwards are moved in groups that do. -/
theorem wellPaired_groups {words after : List StackWord} (made : moves.moveWords words = some after)
    (before : WellPaired words = true) (still : WellPaired after = true) :
    moves.moved + moves.passed ≤ words.length ∧ WellPaired (words.drop moves.moved) = true ∧
      WellPaired (words.drop (moves.moved + moves.passed)) = true := by
  revert made before
  fun_cases moveWords moves words
  all_goals
    intro made before
    cases made
    try simp only [moved, passed, List.drop_succ_cons, List.drop_zero, List.length_cons]
  -- A half that is moved without the other would stand next to a word that it is no value with.
  case case1 => exact ⟨Nat.le_add_left _ _, still, still⟩
  case case2 => exact ⟨Nat.le_add_left _ _, still, still⟩
  case case3 a s =>
    cases a <;> simp_all [WellPaired]
  case case4 a b s =>
    cases a <;> cases b <;> simp_all [WellPaired, not_wellPaired_upper]
  case case5 a b c s =>
    cases a <;> cases b <;> cases c <;> simp_all [WellPaired, not_wellPaired_upper]
  case case6 a b s =>
    cases a <;> cases b <;> simp_all [WellPaired]
  case case7 a b c s =>
    cases a <;> cases b <;> cases c <;> simp_all [WellPaired, not_wellPaired_upper]
  case case8 a b c d s =>
    cases a <;> cases b <;> cases c <;> cases d <;> simp_all [WellPaired, not_wellPaired_upper]
  case case9 a b s =>
    cases a <;> cases b <;> simp_all [WellPaired]

/-- An instruction splits no value of just those stacks whose words make up values again when it is
done. -/
theorem unsplit_iff : moves.Unsplit stack ↔
    ∃ words, moves.moveWords (ofStack stack) = some words ∧ WellPaired words = true := by
  constructor
  · intro whole
    obtain ⟨after, _, words⟩ := whole.apply
    exact ⟨_, words, wellPaired_ofStack after⟩
  · rintro ⟨words, made, paired⟩
    obtain ⟨enough, top, rest⟩ := wellPaired_groups made (wellPaired_ofStack stack) paired
    obtain ⟨above, others, rfl, upper⟩ := cut_of_wellPaired (Nat.le_of_add_right_le enough) top
    rw [ofStack_append] at enough rest
    rw [← upper, ← length_ofStack] at enough rest
    rw [List.length_append] at enough
    rw [List.drop_length_add_append] at rest
    obtain ⟨between, below, rfl, under⟩ :=
      cut_of_wellPaired (Nat.le_of_add_le_add_left enough) rest
    exact ⟨above, between, below, (List.append_assoc _ _ _).symm, upper, under⟩

end Shuffle

namespace Frame

variable (frame : Frame) (moves : Shuffle) (position : Label) (className : String)

theorem execute_shuffle : frame.execute (.simple moves.opcode) position className =
    match moves.apply frame.stack with
    | some stack => .ok ⟨frame.locals, stack⟩
    | none => .error (.stackUnderflow moves.opcode) := by
  have effect : (Instruction.simple moves.opcode).effect position = .ok (.shuffle moves) := by
    cases moves <;> rfl
  unfold execute
  rw [effect]
  simp only [after?]
  cases moves.apply frame.stack <;> rfl

/-- **Instructions that move what is on the stack do it by words.**  Where none of them comes
between the halves of a value, which is where the words make up values again afterwards, the
instruction is run and leaves the values of the words that the machine leaves.  It fails just where
the stack has fewer values than are taken for the words, and so where there are too few words. -/
theorem shuffle_moves_words :
    (moves.Unsplit frame.stack ↔ ∃ words, moves.moveWords (ofStack frame.stack) = some words ∧
      WellPaired words = true) ∧
    (moves.Unsplit frame.stack → ∃ stack,
      frame.execute (.simple moves.opcode) position className = .ok ⟨frame.locals, stack⟩ ∧
        moves.moveWords (ofStack frame.stack) = some (ofStack stack)) ∧
    (∀ cause, frame.execute (.simple moves.opcode) position className = .error cause ↔
      frame.stack.length < moves.entries frame.stack ∧ cause = .stackUnderflow moves.opcode) ∧
    (moves.moveWords (ofStack frame.stack) = none →
      frame.execute (.simple moves.opcode) position className =
        .error (.stackUnderflow moves.opcode)) := by
  rw [execute_shuffle]
  refine ⟨Shuffle.unsplit_iff, fun whole => ?_, fun cause => ?_, fun few => ?_⟩
  · obtain ⟨stack, done, words⟩ := whole.apply
    exact ⟨stack, by rw [done], words⟩
  · rw [← Shuffle.apply_eq_none_iff]
    cases done : moves.apply frame.stack with
    | none => simp [eq_comm]
    | some stack => simp
  · cases done : moves.apply frame.stack with
    | none => rfl
    | some stack =>
      have enough := Shuffle.slotsOf_of_apply done
      rw [← length_ofStack] at enough
      exact absurd few (Shuffle.moveWords_isSome enough)

/-- A narrow value copied past a wide one, and two copied where there is only one more. -/
theorem shuffle_moves_words_wide :
    (Shuffle.dupX2.Unsplit [.int, .long, .float] ∧ ∃ stack,
      (⟨[.null], [.int, .long, .float]⟩ : Frame).execute (.simple Opcode.dupX2) ⟨0⟩ "A" =
        .ok ⟨[.null], stack⟩ ∧
      Shuffle.dupX2.moveWords (ofStack [.int, .long, .float]) = some (ofStack stack)) ∧
    Shuffle.dup2X2.moveWords (ofStack [.int, .double]) = none ∧
    (⟨[], [.int, .double]⟩ : Frame).execute (.simple Opcode.dup2X2) ⟨0⟩ "A" =
      .error (.stackUnderflow Opcode.dup2X2) := by
  have whole : Shuffle.dupX2.Unsplit [.int, .long, .float] :=
    ⟨[.int], [.long], [.float], rfl, rfl, rfl⟩
  have few : Shuffle.dup2X2.moveWords (ofStack [.int, .double]) = none := rfl
  exact ⟨⟨whole, (shuffle_moves_words ⟨[.null], _⟩ .dupX2 ⟨0⟩ "A").2.1 whole⟩, few,
    (shuffle_moves_words ⟨[], _⟩ .dup2X2 ⟨0⟩ "A").2.2.2 few⟩

end Frame

end ClassWeave
