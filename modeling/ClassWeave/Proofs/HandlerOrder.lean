/-
# ClassWeave.Proofs.HandlerOrder -- inner ranges come first

Rows of injected code come into an exception table one after the other, and each looks
only at the first row around it.  `HandlerEntry.Arranged` says what comes of that for the
whole table: every row is there as often as it was given, those of the method in the
order they had, and no row of injected code stands behind one around it.  In a table
that starts out with inner ranges before outer ones no row at all does, and rows with
the same range stand in the order they came.

Rows may be equal, so each is told by its number: the rows of the method come first,
those of injected code after them in the order they were registered.
-/
import ClassWeave.Rewrite.Handlers
import Mathlib.Data.List.Perm.Basic

set_option autoImplicit false

namespace ClassWeave.HandlerEntry

/-! ## Ranges within ranges -/

section Containment

variable {a b c : HandlerEntry}

theorem strictlyContains_iff : a.strictlyContains b = true ↔
    a.start ≤ b.start ∧ b.stop ≤ a.stop ∧ (a.start = b.start → a.stop ≠ b.stop) := by
  simp [strictlyContains, and_assoc, imp_iff_not_or]

theorem strictlyContains_self (a : HandlerEntry) : a.strictlyContains a = false := by
  simp [strictlyContains]

/-- A row around another one is around all that reaches no further than that one. -/
theorem strictlyContains_within (outer : a.strictlyContains b = true) (start : b.start ≤ c.start)
    (stop : c.stop ≤ b.stop) : a.strictlyContains c = true := by
  rw [strictlyContains_iff] at outer ⊢
  obtain ⟨starts, stops, other⟩ := outer
  refine ⟨UInt16.le_trans starts start, UInt16.le_trans stop stops, ?_⟩
  -- The same range would close in the one between from both sides.
  intro sameStart sameStop
  refine other ?_ ?_
  · exact UInt16.le_antisymm starts (sameStart ▸ start)
  · exact UInt16.le_antisymm (sameStop ▸ stop) stops

end Containment

/-- No row stands behind one whose range strictly contains its own. -/
def Nested (table : List HandlerEntry) : Prop :=
  table.Pairwise fun first second => first.strictlyContains second = false

/-! ## One row more -/

/-- A row comes right before the first one around it, or else last. -/
theorem insertRow_split (row : HandlerEntry) : ∀ table : List HandlerEntry,
    ∃ before after, table = before ++ after ∧ insertRow table row = before ++ row :: after ∧
      (∀ other ∈ before, other.strictlyContains row = false) ∧
      ∀ first ∈ after.head?, first.strictlyContains row = true
  | [] => ⟨[], [], rfl, rfl, by simp, by simp⟩
  | first :: rest => by
    rw [insertRow]
    by_cases around : first.strictlyContains row = true
    · exact ⟨[], first :: rest, rfl, if_pos around, by simp, by simpa using around⟩
    · obtain ⟨before, after, split, inserted, clear, outer⟩ := insertRow_split row rest
      refine ⟨first :: before, after, by rw [split]; rfl, ?_, ?_, outer⟩
      · rw [if_neg around, inserted]
        rfl
      · simpa [around] using clear

/-- What stands behind a row that has just come reaches out of its range, if nothing there stands
behind a row around it. -/
theorem reaches_out {row : HandlerEntry} {table : List (HandlerEntry × Nat)}
    {good : HandlerEntry × Nat → Prop}
    (outer : ∀ first ∈ table.head?, first.1.strictlyContains row = true)
    (clear : table.Pairwise fun first second =>
      good second → first.1.strictlyContains second.1 = false) :
    ∀ second ∈ table, good second → row.start ≤ second.1.start → ¬ second.1.stop ≤ row.stop := by
  intro second among fine start stop
  cases table with
  | nil => cases among
  | cons first rest =>
    have around : first.1.strictlyContains second.1 = true :=
      strictlyContains_within (outer first rfl) start stop
    rcases List.mem_cons.1 among with rfl | among
    · rw [strictlyContains_self] at around
      cases around
    · rw [(List.pairwise_cons.1 clear).1 second among fine] at around
      cases around

theorem pairwise_insert {α : Type} {related : α → α → Prop} {before after : List α} {item : α}
    (others : (before ++ after).Pairwise related) (left : ∀ other ∈ before, related other item)
    (right : ∀ other ∈ after, related item other) :
    (before ++ item :: after).Pairwise related := by
  rw [List.pairwise_append] at others ⊢
  obtain ⟨early, late, across⟩ := others
  refine ⟨early, List.pairwise_cons.2 ⟨right, late⟩, ?_⟩
  intro first among second behind
  rcases List.mem_cons.1 behind with rfl | behind
  · exact left first among
  · exact across first among second behind

/-! ## The whole table -/

/-- The rows of `original` and then those of `injected`, under their numbers, as they stand in one
table. -/
structure Arranged (original injected : List HandlerEntry) (placed : List (HandlerEntry × Nat)) :
    Prop where
  /-- Every row stands there, and stands there once. -/
  all : placed.Perm (original ++ injected).zipIdx
  /-- The rows of the method keep their order. -/
  order : placed.Pairwise fun first second =>
    first.2 < original.length → second.2 < original.length → first.2 < second.2
  /-- A row of injected code comes before all rows around it. -/
  inner : placed.Pairwise fun first second =>
    original.length ≤ second.2 → first.1.strictlyContains second.1 = false
  /-- If that is so for all rows of the method, it is for all rows of the table. -/
  nested : Nested original → placed.Pairwise fun first second =>
    first.1.strictlyContains second.1 = false
  /-- Then rows with the same range come in the order of their numbers. -/
  same : Nested original → placed.Pairwise fun first second =>
    first.1.start = second.1.start → first.1.stop = second.1.stop → first.2 < second.2

namespace Arranged

variable {original injected : List HandlerEntry}

theorem start (original : List HandlerEntry) : Arranged original [] original.zipIdx := by
  have rising : original.zipIdx.Pairwise fun first second => first.2 < second.2 := by
    have numbers : (original.zipIdx.map Prod.snd).Pairwise (· < ·) := by
      rw [List.zipIdx_map_snd]
      exact List.pairwise_lt_range'
    exact List.pairwise_map.1 numbers
  refine ⟨by rw [List.append_nil], ?_, ?_, ?_, ?_⟩
  · exact rising.imp fun less _ _ => less
  · refine rising.imp_of_mem ?_
    intro first second _ among _ injected
    have below := List.snd_lt_of_mem_zipIdx among
    omega
  · intro nested
    have rows : (original.zipIdx.map Prod.fst).Pairwise fun first second =>
        first.strictlyContains second = false := by
      rw [List.zipIdx_map_fst]
      exact nested
    exact List.pairwise_map.1 rows
  · exact fun _ => rising.imp fun less _ _ => less

/-- A row more, right before the first one around it. -/
theorem insert {before after : List (HandlerEntry × Nat)}
    (arranged : Arranged original injected (before ++ after)) (row : HandlerEntry)
    (clear : ∀ other ∈ before, other.1.strictlyContains row = false)
    (outer : ∀ first ∈ after.head?, first.1.strictlyContains row = true) :
    Arranged original (injected ++ [row])
      (before ++ (row, original.length + injected.length) :: after) := by
  have earlier : ∀ other ∈ before ++ after, other.2 < original.length + injected.length := by
    intro other among
    have below := List.snd_lt_of_mem_zipIdx (arranged.all.mem_iff.1 among)
    simpa using below
  -- The rows ahead of the new one do not enclose it.  Those behind need an argument: none of them
  -- lies inside the new one, as it would then lie inside the first row around it too.
  have late {related : HandlerEntry × Nat → HandlerEntry × Nat → Prop}
      (holds : (before ++ after).Pairwise related) : after.Pairwise related :=
    (List.pairwise_append.1 holds).2.1
  refine ⟨?_, ?_, ?_, ?_, ?_⟩
  · have numbers : (original ++ (injected ++ [row])).zipIdx =
        (original ++ injected).zipIdx ++ [(row, original.length + injected.length)] := by
      rw [← List.append_assoc, List.zipIdx_append]
      simp
    rw [numbers]
    exact List.perm_middle.trans ((arranged.all.cons _).trans (List.perm_append_singleton _ _).symm)
  · refine pairwise_insert arranged.order ?_ ?_
    · intro other _ _ own
      simp only at own
      omega
    · intro other _ own
      simp only at own
      omega
  · refine pairwise_insert arranged.inner (fun other among _ => clear other among) ?_
    intro other among injected
    rw [← Bool.not_eq_true, strictlyContains_iff]
    intro within
    exact reaches_out outer (late arranged.inner) other among injected within.1 within.2.1
  · intro nested
    refine pairwise_insert (arranged.nested nested) clear ?_
    intro other among
    rw [← Bool.not_eq_true, strictlyContains_iff]
    intro within
    have free := (late (arranged.nested nested)).imp fun apart (_ : True) => apart
    exact reaches_out outer free other among trivial within.1 within.2.1
  · intro nested
    refine pairwise_insert (arranged.same nested) ?_ ?_
    · intro other among _ _
      exact earlier other (List.mem_append_left _ among)
    · intro other among start stop
      have free := (late (arranged.nested nested)).imp fun apart (_ : True) => apart
      have starts : row.start ≤ other.1.start := UInt16.le_of_eq start
      have stops : other.1.stop ≤ row.stop := UInt16.le_of_eq stop.symm
      exact absurd stops (reaches_out outer free other among trivial starts)

/-- Rows come into an arranged table one by one. -/
theorem foldl_insertRow : ∀ (rows injected : List HandlerEntry) (placed : List (HandlerEntry × Nat)),
    Arranged original injected placed →
    ∃ more, more.map Prod.fst = rows.foldl insertRow (placed.map Prod.fst) ∧
      Arranged original (injected ++ rows) more
  | [], injected, placed, arranged => ⟨placed, rfl, by rwa [List.append_nil]⟩
  | row :: rows, injected, placed, arranged => by
    obtain ⟨before, after, split, inserted, clear, outer⟩ :=
      insertRow_split row (placed.map Prod.fst)
    obtain ⟨early, late, rfl, rfl, rfl⟩ := List.map_eq_append_iff.1 split
    have next := arranged.insert row
      (fun other among => clear other.1 (List.mem_map_of_mem among))
      (fun first among => outer first.1 (by
        rw [List.head?_map]
        exact Option.mem_map_of_mem Prod.fst among))
    obtain ⟨more, same, whole⟩ := foldl_insertRow rows (injected ++ [row]) _ next
    rw [List.append_assoc] at whole
    refine ⟨more, ?_, whole⟩
    rw [same, List.foldl_cons, inserted]
    simp

end Arranged

/-- **Two exception tables are merged so that inner ranges come first.**  The rows of the merged
table are those of both, arranged as `Arranged` says. -/
theorem merge_arranged (original injected : List HandlerEntry) :
    ∃ placed, placed.map Prod.fst = merge original injected ∧
      Arranged original injected placed := by
  have run := Arranged.foldl_insertRow injected [] original.zipIdx (Arranged.start original)
  rwa [List.zipIdx_map_fst, List.nil_append] at run

example : merge [⟨0, 30, 60, 0⟩] [⟨2, 20, 40, 0⟩, ⟨4, 8, 50, 0⟩, ⟨2, 20, 55, 0⟩] =
    [⟨4, 8, 50, 0⟩, ⟨2, 20, 40, 0⟩, ⟨2, 20, 55, 0⟩, ⟨0, 30, 60, 0⟩] := by decide

end ClassWeave.HandlerEntry
