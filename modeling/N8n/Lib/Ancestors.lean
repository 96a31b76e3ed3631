import Mathlib.Data.Set.Card
import Mathlib.Logic.Relation

/-!
# Ancestors

What a relation leads to from an element, in any number of steps. If the relation has no cycle and
leads only to the elements of a list, the ancestors of an element are finitely many, and fewer with
each step (`ncard_ancestors_lt`). So a search along the relation ends before it has made more steps
than the list is long.
-/

namespace Lib

open Relation

variable {α : Type*} {r : α → α → Prop} {targets : List α} {a b : α}

def ancestors (r : α → α → Prop) (a : α) : Set α := {b | TransGen r a b}

theorem ancestors_subset (htargets : ∀ a b, r a b → b ∈ targets) (a : α) :
    ancestors r a ⊆ {b | b ∈ targets} := by
  intro b hb
  obtain ⟨c, -, hcb⟩ := TransGen.tail'_iff.mp hb
  exact htargets c b hcb

theorem finite_ancestors (htargets : ∀ a b, r a b → b ∈ targets) (a : α) :
    (ancestors r a).Finite :=
  targets.finite_toSet.subset (ancestors_subset htargets a)

theorem ncard_ancestors_le (htargets : ∀ a b, r a b → b ∈ targets) (a : α) :
    (ancestors r a).ncard ≤ targets.length := by
  classical
  have hle := Set.ncard_le_ncard (ancestors_subset htargets a) targets.finite_toSet
  have hcard : {b | b ∈ targets}.ncard ≤ targets.length := by
    rw [← List.coe_toFinset, Set.ncard_coe_finset]
    exact targets.toFinset_card_le
  exact hle.trans hcard

/-- A step leaves an ancestor behind. -/
theorem ncard_ancestors_lt (hacyclic : ∀ a, ¬TransGen r a a)
    (htargets : ∀ a b, r a b → b ∈ targets) (h : r a b) :
    (ancestors r b).ncard < (ancestors r a).ncard := by
  refine Set.ncard_lt_ncard ⟨fun c hc => .head h hc, fun hsubset => ?_⟩
    (finite_ancestors htargets a)
  exact hacyclic b (hsubset (TransGen.single h))

/-- Elements that get smaller with each step make no cycle. -/
theorem not_transGen_self_of_lt (rank : α → ℕ) (h : ∀ a b, r a b → rank b < rank a) (a : α) :
    ¬TransGen r a a := by
  intro hcycle
  have hlt : ∀ {b}, TransGen r a b → rank b < rank a := fun hb => by
    induction hb with
    | single hab => exact h _ _ hab
    | tail _ hbc ih => exact (h _ _ hbc).trans ih
  exact lt_irrefl _ (hlt hcycle)

end Lib
