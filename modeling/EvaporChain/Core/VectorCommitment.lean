import Mathlib

/-!
# Linear commitments to vectors

A vector is committed to by the combination of its entries with one generator for each index. If
the generators are independent, a commitment fixes the sum of the scalars added at each index, and
nothing about how that sum was made up.
-/

namespace Core

namespace VectorCommitment

variable {ι F G : Type} [Fintype ι] [Ring F] [AddCommGroup G] [Module F G]

def commit (gens : ι → G) (f : ι → F) : G := ∑ i, f i • gens i

def commitList (gens : ι → G) (xs : List (ι × F)) : G := (xs.map fun x => x.2 • gens x.1).sum

/-- Different vectors have different commitments. -/
def Binding (F : Type) [Ring F] [Module F G] (gens : ι → G) : Prop :=
  Function.Injective (commit (F := F) gens)

variable {gens : ι → G}

lemma commit_add (f g : ι → F) : commit gens (f + g) = commit gens f + commit gens g := by
  simp [commit, add_smul, Finset.sum_add_distrib]

variable [DecidableEq ι]

def slot (xs : List (ι × F)) (i : ι) : F := (xs.map fun x => if x.1 = i then x.2 else 0).sum

section

omit [Fintype ι]

lemma slot_cons (x : ι × F) (xs : List (ι × F)) (i : ι) :
    slot (x :: xs) i = (if x.1 = i then x.2 else 0) + slot xs i := rfl

lemma slot_append (xs ys : List (ι × F)) (i : ι) : slot (xs ++ ys) i = slot xs i + slot ys i := by
  simp [slot]

/-- Nothing is listed at the index. -/
lemma slot_eq_zero {xs : List (ι × F)} {i : ι} (h : ∀ x ∈ xs, x.1 ≠ i) : slot xs i = 0 := by
  refine List.sum_eq_zero fun y hy => ?_
  obtain ⟨x, hx, rfl⟩ := List.mem_map.mp hy
  exact if_neg (h x hx)

/-- Each index is listed once. -/
lemma slot_map {l : List ι} (hl : l.Nodup) (f : ι → F) (i : ι) :
    slot (l.map fun j => (j, f j)) i = if i ∈ l then f i else 0 := by
  induction l with
  | nil => rfl
  | cons j l ih =>
    obtain ⟨hj, hl⟩ := List.nodup_cons.mp hl
    rw [List.map_cons, slot_cons, ih hl]
    by_cases hij : j = i
    · subst hij
      simp [hj]
    · simp [hij, Ne.symm hij]

end

lemma commit_single (i : ι) (a : F) : commit gens (Pi.single i a) = a • gens i := by
  simp [commit]

/-- A listed commitment is the one of the sums at each index. -/
lemma commitList_eq_commit (xs : List (ι × F)) : commitList gens xs = commit gens (slot xs) := by
  induction xs with
  | nil => simp [commitList, commit, slot]
  | cons x xs ih =>
    have hslot : slot (x :: xs) = Pi.single x.1 x.2 + slot xs := by
      funext i
      simp [slot_cons, Pi.single_apply, eq_comm]
    rw [hslot, commit_add, commit_single, ← ih]
    rfl

/-- Two lists with one commitment have the same sums. -/
lemma Binding.slot_eq (h : Binding F gens) {f : ι → F} {xs : List (ι × F)}
    (hcommit : commit gens f = commitList gens xs) (i : ι) : f i = slot xs i := by
  rw [commitList_eq_commit] at hcommit
  rw [h hcommit]

/-- The standard basis is binding. -/
lemma binding_single : Binding F (fun i : ι => (Pi.single i 1 : ι → F)) := by
  intro f g h
  have hcommit : ∀ f : ι → F, commit (fun i : ι => (Pi.single i 1 : ι → F)) f = f := by
    intro f
    funext j
    simp [commit, Pi.single_apply]
  rwa [hcommit, hcommit] at h

end VectorCommitment

end Core
