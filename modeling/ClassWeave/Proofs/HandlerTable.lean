/-
# ClassWeave.Proofs.HandlerTable -- the exception table of rewritten code

Exception blocks are resolved one by one to rows, those whose range is empty to none
(`TryBlock.Becomes`), and the rows of injected code are put between those of the
method.  Nothing is taken out on the way and nothing changes places
(`HandlerEntry.sublist_merge`), so whatever blocks a method came with, their rows stand in
the table of the new payload in the order they had.
-/
import ClassWeave.Proofs.ClassFileRoundTrip
import ClassWeave.Proofs.CodeGrowth
import ClassWeave.Proofs.HandlerOrder

set_option autoImplicit false

namespace ClassWeave

/-! ## Two tables in one -/

namespace HandlerEntry

theorem sublist_insertRow (row : HandlerEntry) (table : List HandlerEntry) :
    table.Sublist (insertRow table row) := by
  obtain ⟨before, after, rfl, inserted, _, _⟩ := insertRow_split row table
  rw [inserted]
  exact (List.sublist_cons_self row after).append_left before

/-- The rows of a method keep their order among those of injected code. -/
theorem sublist_merge (original injected : List HandlerEntry) :
    original.Sublist (merge original injected) := by
  unfold merge
  induction injected generalizing original with
  | nil => exact List.Sublist.refl original
  | cons row injected ih => exact (sublist_insertRow row original).trans (ih _)

/-- The class of the exceptions that a row catches, if it does not catch all. -/
def caught? (entries : Entries) (row : HandlerEntry) : Except ReadError (Option String) :=
  if row.catchType = 0 then .ok none else (entries.className row.catchType).map some

/-- The instruction at an offset is in the range of the row. -/
def Covers (row : HandlerEntry) (offset : Nat) : Prop :=
  row.start.toNat ≤ offset ∧ offset < row.stop.toNat

end HandlerEntry

/-! ## Rows of blocks -/

/-- What a row refers to for a class, or for none. -/
def HandlerEntry.Catches (pool : ConstantPool) (row : HandlerEntry) : Option String → Prop
  | some name => pool.Holds (.class name) row.catchType
  | none => row.catchType = 0

namespace HandlerEntry.Catches

variable {pool after : ConstantPool} {row : HandlerEntry} {type : Option String}

theorem grown (catches : row.Catches pool type) (grown : pool.Grown after) :
    row.Catches after type := by
  cases type with
  | none => exact catches
  | some name => exact ConstantPool.Holds.grown catches grown

/-- A class in the pool has an index, and zero is none. -/
theorem caught? (catches : row.Catches pool type) (slotted : Entries.Slotted pool.entries) :
    row.caught? pool.entries = .ok type := by
  cases type with
  | none => exact if_pos catches
  | some name =>
    have found := (ConstantPool.holds_class _ _ _).1 catches
    have used : row.catchType ≠ 0 := by
      intro zero
      obtain ⟨place, entry, _⟩ := (Entries.className?_eq_some _ _ _).1 found
      obtain ⟨parts, _, table⟩ := slotted
      rw [zero, ← Array.getElem?_toList, table] at entry
      cases entry
    rw [HandlerEntry.caught?, if_neg used, (Entries.className_eq_ok _ _ _).2 found]
    rfl

end HandlerEntry.Catches

namespace TryBlock

/-- The row of a block in assembled code; there is one if the range holds anything. -/
def Resolves (assembled : AssembledCode) (block : TryBlock) (row? : Option HandlerEntry)
    (pool : ConstantPool) : Prop :=
  ∃ start stop, assembled.offsetOf block.start = .ok start ∧
    assembled.offsetOf block.stop = .ok stop ∧
    (start < stop → ∃ row handler, row? = some row ∧ row.start = UInt16.ofNat start ∧
      row.stop = UInt16.ofNat stop ∧ assembled.offsetOf block.handler = .ok handler ∧
      row.handler = UInt16.ofNat handler ∧ row.Catches pool block.catchType)

end TryBlock

/-- The row of a block whose range holds something: its range and handler at the offsets of the
labels, and its class. -/
structure HandlerEntry.StandsFor (assembled : AssembledCode) (pool : ConstantPool)
    (row : HandlerEntry) (block : TryBlock) : Prop where
  start : assembled.offsetOf block.start = .ok row.start.toNat
  stop : assembled.offsetOf block.stop = .ok row.stop.toNat
  filled : row.start.toNat < row.stop.toNat
  handler : assembled.offsetOf block.handler = .ok row.handler.toNat
  catches : row.Catches pool block.catchType

namespace TryBlock

variable {assembled : AssembledCode} {block : TryBlock} {row? : Option HandlerEntry}
  {before after : ConstantPool}

/-- What becomes of a block: its row, or nothing if its range is empty. -/
inductive Becomes (assembled : AssembledCode) (block : TryBlock) (pool : ConstantPool) :
    Option HandlerEntry → Prop
  | nothing {start stop : Nat} (opens : assembled.offsetOf block.start = .ok start)
      (closes : assembled.offsetOf block.stop = .ok stop) (empty : stop ≤ start) :
      Becomes assembled block pool none
  | row {row : HandlerEntry} (stands : row.StandsFor assembled pool block) :
      Becomes assembled block pool (some row)

namespace Becomes

theorem grown (grown : before.Grown after) (becomes : block.Becomes assembled before row?) :
    block.Becomes assembled after row? := by
  cases becomes with
  | nothing opens closes empty => exact .nothing opens closes empty
  | row stands => exact .row { stands with catches := stands.catches.grown grown }

theorem resolves (becomes : block.Becomes assembled before row?) :
    block.Resolves assembled row? before := by
  cases becomes with
  | nothing opens closes empty =>
    refine ⟨_, _, opens, closes, fun some_ => ?_⟩
    omega
  | row stands =>
    exact ⟨_, _, stands.start, stands.stop, fun _ => ⟨_, _, rfl, UInt16.ofNat_toNat.symm,
      UInt16.ofNat_toNat.symm, stands.handler, UInt16.ofNat_toNat.symm, stands.catches⟩⟩

end Becomes

end TryBlock

namespace AssembledCode

variable {assembled : AssembledCode}

theorem find_leads (label : Label) (pool : ConstantPool) :
    Interning.Leads (assembled.find label) pool fun offset after =>
      assembled.offsetOf label = .ok offset ∧ after = pool :=
  .lift _

/-- Two bytes are enough for the offset of a label. -/
theorem toNat_ofNat_offset (small : ∀ label offset, assembled.offsetOf label = .ok offset →
      offset ≤ 0xFFFF) {label : Label} {offset : Nat}
    (known : assembled.offsetOf label = .ok offset) : (UInt16.ofNat offset).toNat = offset := by
  have few := small label offset known
  simp only [UInt16.toNat_ofNat']
  omega

/-- Every block has its row, or it has none. -/
theorem resolveHandlers_leads (small : ∀ label offset, assembled.offsetOf label = .ok offset →
      offset ≤ 0xFFFF) (blocks : List TryBlock) {pool : ConstantPool} (sound : pool.Sound) :
    Interning.Leads (assembled.resolveHandlers blocks) pool fun rows after =>
      ∃ found : List (Option HandlerEntry), rows = found.filterMap id ∧
        List.Forall₂ (fun block row? => TryBlock.Becomes assembled block after row?)
          blocks found := by
  refine (Interning.Leads.mapM (fun block pool sound => ?_)
    (fun _ _ _ _ grown becomes => becomes.grown grown) blocks sound).bind
      fun found after _ each => .pure ⟨found, rfl, each⟩
  refine (find_leads block.start pool).bind fun start _ _ ⟨opens, same⟩ => ?_
  subst same
  refine (find_leads block.stop _).bind fun stop _ _ ⟨closes, same⟩ => ?_
  subst same
  by_cases empty : stop ≤ start
  · rw [if_pos empty]
    exact .pure (.nothing opens closes empty)
  · rw [if_neg empty]
    -- The name of what is caught goes into the pool before the handler is looked up, so the shape
    -- of the row is shown for any pool.
    have stands {handler : Nat} {catchType : UInt16} {pool : ConstantPool}
        (leads : assembled.offsetOf block.handler = .ok handler)
        (catches : HandlerEntry.Catches pool ⟨UInt16.ofNat start, UInt16.ofNat stop,
          UInt16.ofNat handler, catchType⟩ block.catchType) :
        HandlerEntry.StandsFor assembled pool ⟨UInt16.ofNat start, UInt16.ofNat stop,
          UInt16.ofNat handler, catchType⟩ block := by
      have first := toNat_ofNat_offset small opens
      have last := toNat_ofNat_offset small closes
      refine ⟨?_, ?_, ?_, ?_, catches⟩
      · rw [first, opens]
      · rw [last, closes]
      · rw [first, last]
        omega
      · rw [toNat_ofNat_offset small leads, leads]
    cases caught : block.catchType with
    | none =>
      refine (find_leads block.handler _).bind fun handler _ _ ⟨leads, same⟩ => ?_
      subst same
      refine .pure (.row (stands leads ?_))
      rw [caught]
      exact rfl
    | some name =>
      refine (Interning.className_leads sound name).bind fun catchType after _ holds => ?_
      refine (find_leads block.handler _).bind fun handler _ _ ⟨leads, same⟩ => ?_
      subst same
      refine .pure (.row (stands leads ?_))
      rw [caught]
      exact holds

end AssembledCode

end ClassWeave
