/-
# ClassWeave.Proofs.ExceptionDispatch -- which row takes an exception

An exception goes to the first row of the table that covers the instruction and catches
the class (`HandlerEntry.dispatch`).  Rows that have moved with their instructions take
what they took (`HandlerEntry.dispatch_moves`), so all depends on where the rows of
injected code come into the table.  Those that no row before them is around come behind
all others (`HandlerEntry.merge_behind`).
-/
import ClassWeave.Proofs.Refinement

set_option autoImplicit false

namespace ClassWeave

namespace HandlerEntry

/-! ## Dispatch -/

instance (row : HandlerEntry) (offset : Nat) : Decidable (row.Covers offset) :=
  inferInstanceAs (Decidable (_ ∧ _))

/-- The row catches an exception that is of the classes `isA` says. -/
def catches (entries : Entries) (isA : String → Bool) (row : HandlerEntry) : Bool :=
  match row.caught? entries with
  | .ok none => true
  | .ok (some name) => isA name
  | .error _ => false

/-- The row that takes an exception which is thrown at an offset. -/
def dispatch (entries : Entries) (isA : String → Bool) (table : List HandlerEntry)
    (offset : Nat) : Option HandlerEntry :=
  table.find? fun row => row.Covers offset && row.catches entries isA

section Moved

variable {old final : Entries} {assembled : AssembledCode} {landed : List Landed}

theorem Moves.takes {before after : HandlerEntry}
    (moves : before.Moves old final assembled landed after) (isA : String → Bool) {l : Landed}
    (among : l ∈ landed) :
    (before.Covers l.offset && before.catches old isA : Bool) =
      (after.Covers l.place && after.catches final isA) := by
  rw [catches, catches, moves.caught, decide_eq_decide.2 (moves.covers l among)]

/-- Rows without a range take nothing. -/
theorem dispatch_filled (entries : Entries) (isA : String → Bool) (table : List HandlerEntry)
    (offset : Nat) : dispatch entries isA (table.filter fun row => row.start < row.stop) offset =
      dispatch entries isA table offset := by
  rw [dispatch, List.find?_filter]
  refine congrArg (List.find? · table) (funext fun row => ?_)
  by_cases covers : row.Covers offset
  · have filled : row.start < row.stop := by
      have bounds := covers
      rw [Covers] at bounds
      rw [UInt16.lt_iff_toNat_lt]
      omega
    simp [filled]
  · simp [covers]

/-- Where rows move with what they covered, exceptions still go to the rows they went to. -/
theorem dispatch_moves {table moved : List HandlerEntry}
    (moves : List.Forall₂ (Moves old final assembled landed) table moved) (isA : String → Bool)
    {l : Landed} (among : l ∈ landed) :
    (∀ before, dispatch old isA table l.offset = some before →
      ∃ after, dispatch final isA moved l.place = some after ∧
        before.Moves old final assembled landed after) ∧
      (dispatch old isA table l.offset = none → dispatch final isA moved l.place = none) := by
  induction moves with
  | nil => exact ⟨nofun, fun _ => rfl⟩
  | @cons before after table moved one _ ih =>
    rw [dispatch, dispatch, List.find?_cons, List.find?_cons, one.takes isA among]
    cases (after.Covers l.place && after.catches final isA : Bool) with
    | true =>
      refine ⟨fun took same => ⟨after, rfl, ?_⟩, nofun⟩
      rwa [← Option.some.inj same]
    | false => exact ih

end Moved

/-! ## Rows at the end of the table -/

/-- A row comes last if there is none around it. -/
theorem insertRow_last {row : HandlerEntry} : ∀ {table : List HandlerEntry},
    (∀ other ∈ table, other.strictlyContains row = false) → insertRow table row = table ++ [row]
  | [], _ => rfl
  | first :: rest, clear => by
    obtain ⟨here, others⟩ := List.forall_mem_cons.1 clear
    rw [insertRow, if_neg (by rw [here]; exact Bool.false_ne_true), insertRow_last others]
    rfl

/-- Rows that no row before them is around come behind all others, in their order. -/
theorem merge_behind {original injected : List HandlerEntry} (nested : Nested injected)
    (clear : ∀ other ∈ original, ∀ row ∈ injected, other.strictlyContains row = false) :
    merge original injected = original ++ injected := by
  unfold merge
  induction injected generalizing original with
  | nil => exact (List.append_nil original).symm
  | cons row injected ih =>
    obtain ⟨around, nested⟩ := List.pairwise_cons.1 nested
    have one := insertRow_last fun other among => clear other among row List.mem_cons_self
    have others : injected.foldl insertRow (original ++ [row]) = (original ++ [row]) ++ injected := by
      refine ih nested fun other among later within => ?_
      rcases List.mem_append.1 among with old | new
      · exact clear other old later (List.mem_cons_of_mem _ within)
      · obtain rfl := List.mem_singleton.1 new
        exact around later within
    rw [List.foldl_cons, one, others, List.append_assoc]
    rfl

end HandlerEntry

end ClassWeave
