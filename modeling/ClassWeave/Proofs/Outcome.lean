/-
# ClassWeave.Proofs.Outcome -- steps that may fail, taken apart

Two steps one after the other succeed when both do, and so does a step for each of a
list.  The results of a list of steps stand side by side with what they are results of.
-/
import Mathlib.Control.Monad.Basic
import Mathlib.Data.List.Forall2

set_option autoImplicit false

namespace ClassWeave.Outcome

variable {ε α β : Type}

/-- Why a step failed, if it did. -/
def cause? : Except ε α → Option ε
  | .ok _ => none
  | .error cause => some cause

theorem bind_eq_ok {step : Except ε α} {next : α → Except ε β} {result : β} :
    step >>= next = .ok result ↔ ∃ value, step = .ok value ∧ next value = .ok result := by
  cases step with
  | error cause =>
    constructor
    · intro failed
      cases failed
    · rintro ⟨value, failed, _⟩
      cases failed
  | ok value =>
    constructor
    · intro goesOn
      exact ⟨value, rfl, goesOn⟩
    · rintro ⟨_, same, goesOn⟩
      cases same
      exact goesOn

theorem map_eq_ok {step : Except ε α} {f : α → β} {result : β} :
    step.map f = .ok result ↔ ∃ value, step = .ok value ∧ f value = result := by
  cases step <;> simp [Except.map]

/-- What was found to hold of a result shows that there is one. -/
theorem exists_of_any {step : Except ε α} {holds : α → Bool}
    (found : step.toOption.any holds = true) : ∃ value, step = .ok value ∧ holds value = true := by
  cases step with
  | error cause => cases found
  | ok value => exact ⟨value, rfl, found⟩

/-- Each result belongs to the item at its place. -/
theorem mapM_eq_ok {f : α → Except ε β} : ∀ {items : List α} {results : List β},
    items.mapM f = .ok results ↔ List.Forall₂ (fun item result => f item = .ok result) items results
  | [], results => by
    rw [List.mapM_nil, List.forall₂_nil_left_iff]
    constructor
    · intro same
      cases same
      rfl
    · rintro rfl
      rfl
  | item :: items, results => by
    rw [List.mapM_cons, bind_eq_ok, List.forall₂_cons_left_iff]
    constructor
    · rintro ⟨result, done, goesOn⟩
      obtain ⟨others, rest, same⟩ := bind_eq_ok.1 goesOn
      cases same
      exact ⟨result, others, done, mapM_eq_ok.1 rest, rfl⟩
    · rintro ⟨result, others, done, rest, rfl⟩
      exact ⟨result, done, bind_eq_ok.2 ⟨others, mapM_eq_ok.2 rest, rfl⟩⟩

/-- Steps that all succeed have results. -/
theorem mapM_total {f : α → Except ε β} : ∀ {items : List α},
    (∀ item ∈ items, ∃ result, f item = .ok result) → ∃ results, items.mapM f = .ok results
  | [], _ => ⟨[], mapM_eq_ok.2 .nil⟩
  | item :: items, each => by
    obtain ⟨result, done⟩ := each item List.mem_cons_self
    obtain ⟨results, rest⟩ := mapM_total fun other among => each other (List.mem_cons_of_mem _ among)
    exact ⟨result :: results, mapM_eq_ok.2 (.cons done (mapM_eq_ok.1 rest))⟩

/-! ## Side by side -/

variable {related : α → β → Prop}

/-- Everything on the right has something on the left that it belongs to. -/
theorem exists_of_forall₂ {left : List α} {right : List β}
    (all : List.Forall₂ related left right) : ∀ b ∈ right, ∃ a ∈ left, related a b := by
  induction all with
  | nil => simp
  | cons first _ ih =>
    intro b among
    rcases List.mem_cons.1 among with rfl | later
    · exact ⟨_, List.mem_cons_self, first⟩
    · obtain ⟨a, known, both⟩ := ih b later
      exact ⟨a, List.mem_cons_of_mem _ known, both⟩

/-- What belongs to some of the left, in its order. -/
theorem forall₂_of_sublist {left some_ : List α} {right : List β}
    (all : List.Forall₂ related left right) (among : some_.Sublist left) :
    ∃ others : List β, others.Sublist right ∧ List.Forall₂ related some_ others := by
  induction among generalizing right with
  | slnil => exact ⟨[], List.nil_sublist _, .nil⟩
  | cons a _ ih =>
    cases all with
    | cons _ rest =>
      obtain ⟨others, within, each⟩ := ih rest
      exact ⟨others, within.cons _, each⟩
  | cons_cons a _ ih =>
    cases all with
    | cons first rest =>
      obtain ⟨others, within, each⟩ := ih rest
      exact ⟨_ :: others, within.cons_cons _, .cons first each⟩

/-- What comes of some items stands for those it comes of. -/
theorem forall₂_filterMap {γ : Type} {stands : γ → α → Prop} {chosen : α → Bool}
    {f : β → Option γ} {left : List α} {right : List β} (all : List.Forall₂ related left right)
    (none_ : ∀ a b, related a b → f b = none → chosen a = false)
    (some_ : ∀ a b c, related a b → f b = some c → chosen a = true ∧ stands c a) :
    List.Forall₂ stands (right.filterMap f) (left.filter chosen) := by
  induction all with
  | nil => exact .nil
  | @cons a b left right one _ ih =>
    cases found : f b with
    | none =>
      rw [List.filterMap_cons_none found, List.filter_cons_of_neg (by simp [none_ a b one found])]
      exact ih
    | some c =>
      obtain ⟨taken, own⟩ := some_ a b c one found
      rw [List.filterMap_cons_some found, List.filter_cons_of_pos taken]
      exact .cons own ih

/-- What is chosen on both sides alike still goes together. -/
theorem forall₂_filter {chosen : α → Bool} {chosen' : β → Bool} {left : List α} {right : List β}
    (all : List.Forall₂ related left right)
    (alike : ∀ a b, b ∈ right → related a b → chosen a = chosen' b) :
    List.Forall₂ related (left.filter chosen) (right.filter chosen') := by
  induction all with
  | nil => exact .nil
  | @cons a b left right one _ ih =>
    have here := alike a b List.mem_cons_self one
    have others := ih fun a b among => alike a b (List.mem_cons_of_mem _ among)
    rw [List.filter_cons, List.filter_cons, here]
    split
    · exact .cons one others
    · exact others

/-- What goes with something in the middle goes together. -/
theorem forall₂_through {γ : Type} {other : β → γ → Prop} {both : α → γ → Prop} {left : List α}
    {middle : List β} {right : List γ} (first : List.Forall₂ related left middle)
    (second : List.Forall₂ other middle right)
    (each : ∀ a b c, related a b → other b c → both a c) : List.Forall₂ both left right := by
  induction first generalizing right with
  | nil =>
    cases second
    exact .nil
  | cons one _ ih =>
    cases second with
    | cons one' rest => exact .cons (each _ _ _ one one') (ih rest)

/-- The items of a list go with themselves and their places. -/
theorem forall₂_zipIdx {paired : α → α × Nat → Prop} {items : List α}
    (each : ∀ item i, (item, i) ∈ items.zipIdx → paired item (item, i)) :
    List.Forall₂ paired items items.zipIdx := by
  have both : List.Forall₂ paired (items.zipIdx.map Prod.fst) items.zipIdx :=
    List.forall₂_map_left_iff.2 (List.forall₂_same.2 fun numbered => each numbered.1 numbered.2)
  rwa [List.zipIdx_map_fst] at both

theorem forall₂_append_left : ∀ {early late : List α} {right : List β},
    List.Forall₂ related (early ++ late) right →
    ∃ first second, right = first ++ second ∧ List.Forall₂ related early first ∧
      List.Forall₂ related late second
  | [], _, right, all => ⟨[], right, rfl, .nil, all⟩
  | _ :: _, _, _, .cons one rest => by
    obtain ⟨first, second, rfl, before, after⟩ := forall₂_append_left rest
    exact ⟨_ :: first, second, rfl, .cons one before, after⟩

/-- What holds of the left, each with all behind it, holds of what belongs to them. -/
theorem pairwise_of_forall₂ {before : α → α → Prop} {after : β → β → Prop} {left : List α}
    {right : List β} (all : List.Forall₂ related left right) (pairs : left.Pairwise before)
    (each : ∀ a b a' b', related a b → related a' b' → before a a' → after b b') :
    right.Pairwise after := by
  induction all with
  | nil => exact .nil
  | @cons a b left right one all ih =>
    obtain ⟨first, pairs⟩ := List.pairwise_cons.1 pairs
    refine .cons (fun b' among => ?_) (ih pairs)
    obtain ⟨a', within, other⟩ := exists_of_forall₂ all b' among
    exact each a b a' b' one other (first a' within)

end ClassWeave.Outcome
