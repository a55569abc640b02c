import Mathlib

/-!
# Saturating arithmetic on 64-bit words

Unsigned 64-bit counters are natural numbers; an operation that clamps at the top of the
range takes a `min` with `u64Max`.
-/

namespace Core

/-- Largest value of an unsigned 64-bit word. -/
def u64Max : ℕ := 2 ^ 64 - 1

/-- Addition that clamps at `u64Max` instead of wrapping. -/
def satAdd (a b : ℕ) : ℕ := min (a + b) u64Max

/-- Multiplication that clamps at `u64Max` instead of wrapping. -/
def satMul (a b : ℕ) : ℕ := min (a * b) u64Max

variable (l : List ℕ)

/-- Left-to-right saturating sum. -/
def satSum : ℕ := l.foldl satAdd 0

lemma satAdd_le_max (a b : ℕ) : satAdd a b ≤ u64Max := min_le_right _ _

lemma satAdd_le_add (a b : ℕ) : satAdd a b ≤ a + b := min_le_left _ _

/-- Clamping at every step is the same as clamping once at the end. -/
lemma foldl_satAdd (a : ℕ) : l.foldl satAdd (min a u64Max) = min (a + l.sum) u64Max := by
  induction l generalizing a with
  | nil => simp
  | cons b l ih =>
    rw [List.foldl_cons, satAdd, show min (min a u64Max + b) u64Max = min (a + b) u64Max by omega,
      ih, List.sum_cons, add_assoc]

lemma satSum_eq : satSum l = min l.sum u64Max := by
  simpa [satSum] using foldl_satAdd l 0

lemma satSum_le_sum : satSum l ≤ l.sum := by
  rw [satSum_eq]
  exact min_le_left _ _

lemma satSum_le_max : satSum l ≤ u64Max := by
  rw [satSum_eq]
  exact min_le_right _ _

/-- Below the top of the range nothing is clamped. -/
lemma satSum_eq_sum {l : List ℕ} (h : l.sum ≤ u64Max) : satSum l = l.sum := by
  rw [satSum_eq]
  exact min_eq_left h

end Core
