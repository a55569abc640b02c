import Mathlib

/-!
# Weighted quorums

Members of a finite universe carry weights in `ℕ`. Two sets that together outweigh the
universe overlap, and the overlap weighs at least the excess.
-/

namespace Core

open Finset

variable {α : Type*} [DecidableEq α] (w : α → ℕ)

/-- Inclusion–exclusion inside a universe: the overlap weighs at least the excess. -/
lemma sum_add_sum_le_sum_add_inter {U A B : Finset α} (hA : A ⊆ U) (hB : B ⊆ U) :
    ∑ x ∈ A, w x + ∑ x ∈ B, w x ≤ ∑ x ∈ U, w x + ∑ x ∈ A ∩ B, w x := by
  rw [← sum_union_inter]
  exact Nat.add_le_add_right (sum_le_sum_of_subset (union_subset hA hB)) _

/-- Two sets that together outweigh the universe have a common member. -/
theorem exists_mem_inter {U A B : Finset α} (hA : A ⊆ U) (hB : B ⊆ U)
    (h : ∑ x ∈ U, w x < ∑ x ∈ A, w x + ∑ x ∈ B, w x) : ∃ x, x ∈ A ∧ x ∈ B := by
  have hle := sum_add_sum_le_sum_add_inter w hA hB
  obtain ⟨x, hx⟩ : (A ∩ B).Nonempty := by
    by_contra hempty
    rw [not_nonempty_iff_eq_empty.mp hempty, sum_empty] at hle
    omega
  exact ⟨x, mem_inter.mp hx⟩

end Core
