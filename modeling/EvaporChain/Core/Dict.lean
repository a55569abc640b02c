import Mathlib

/-!
# Finite maps
-/

namespace Core

open AList Finset List

/-- A finite map; keys are distinct by construction. -/
abbrev Dict (K V : Type) := AList fun _ : K => V

/-- Two sums that differ at one index. -/
lemma sum_add_of_others {ι : Type*} [Fintype ι] [DecidableEq ι] {f g : ι → ℕ} (i : ι)
    (h : ∀ j ≠ i, g j = f j) : ∑ j, g j + f i = ∑ j, f j + g i := by
  rw [← add_sum_erase Finset.univ f (mem_univ i),
    ← add_sum_erase Finset.univ g (mem_univ i)]
  have hothers : ∑ j ∈ Finset.univ.erase i, g j = ∑ j ∈ Finset.univ.erase i, f j :=
    sum_congr rfl fun j hj => h j (ne_of_mem_erase hj)
  omega

/-- A sum over all indices is one over a list of those that matter. -/
lemma sum_map_of_support {ι : Type*} [Fintype ι] [DecidableEq ι] {f : ι → ℕ} {l : List ι}
    (hnodup : l.Nodup) (h : ∀ i ∉ l, f i = 0) : (l.map f).sum = ∑ i, f i := by
  rw [← sum_toFinset f hnodup]
  refine sum_subset (subset_univ _) fun i _ hi => h i ?_
  rwa [mem_toFinset] at hi

lemma le_sum_univ {ι : Type*} [Fintype ι] (f : ι → ℕ) (i : ι) : f i ≤ ∑ j, f j :=
  Finset.single_le_sum (fun _ _ => Nat.zero_le _) (mem_univ i)

namespace Dict

variable {K V : Type} [DecidableEq K]

/-- Every value is stored under its own key. -/
def KeyedBy (d : Dict K V) (key : V → K) : Prop := ∀ k v, d.lookup k = some v → key v = k

variable {d : Dict K V} {key : V → K}

lemma KeyedBy.empty : KeyedBy (∅ : Dict K V) key := by
  intro k v h
  simp at h

lemma lookup_insert_apply (d : Dict K V) (k k' : K) (v : V) :
    (d.insert k v).lookup k' = if k' = k then some v else d.lookup k' := by
  split_ifs with h
  · subst h
    exact lookup_insert d
  · exact lookup_insert_ne h

lemma lookup_erase_apply (d : Dict K V) (k k' : K) :
    (d.erase k).lookup k' = if k' = k then none else d.lookup k' := by
  split_ifs with h
  · subst h
    exact lookup_erase k' d
  · exact lookup_erase_ne h

lemma KeyedBy.insert (h : KeyedBy d key) (v : V) : KeyedBy (d.insert (key v) v) key := by
  intro k v' hv'
  rw [lookup_insert_apply] at hv'
  split_ifs at hv' with hk
  · cases hv'
    exact hk.symm
  · exact h k v' hv'

lemma KeyedBy.erase (h : KeyedBy d key) (k : K) : KeyedBy (d.erase k) key := by
  intro k' v hv
  rw [lookup_erase_apply] at hv
  split_ifs at hv
  exact h k' v hv

/-! ### Entries -/

lemma length_insert_of_isSome {k : K} (h : (d.lookup k).isSome) (v : V) :
    (d.insert k v).entries.length = d.entries.length := by
  have hmem : k ∈ d.keys := AList.lookup_isSome.mp h
  have hkeys : (d.insert k v).keys.length = d.keys.length := by
    rw [keys_insert, length_cons, length_erase_of_mem hmem]
    have := length_pos_of_mem hmem
    omega
  simpa [AList.keys, List.keys] using hkeys

lemma length_insert_of_none {k : K} (h : d.lookup k = none) (v : V) :
    (d.insert k v).entries.length = d.entries.length + 1 := by
  have hmem : k ∉ d := AList.lookup_eq_none.mp h
  rw [entries_insert_of_notMem hmem, length_cons]

/-- A value of the map is found under its key. -/
lemma KeyedBy.lookup_of_mem (h : KeyedBy d key) {v : V} (hv : v ∈ d.entries.map (·.2)) :
    d.lookup (key v) = some v := by
  obtain ⟨⟨k, v'⟩, hmem, rfl⟩ := List.mem_map.mp hv
  have hlookup : d.lookup k = some v' := AList.mem_lookup_iff.mpr hmem
  rwa [h k v' hlookup]

lemma mem_values_of_lookup {k : K} {v : V} (h : d.lookup k = some v) : v ∈ d.entries.map (·.2) :=
  List.mem_map.mpr ⟨⟨k, v⟩, AList.mem_lookup_iff.mp h, rfl⟩

/-- The values have different keys. -/
lemma KeyedBy.nodup_keys (h : KeyedBy d key) : ((d.entries.map (·.2)).map key).Nodup := by
  have hkeys : (d.entries.map (·.2)).map key = d.keys := by
    rw [List.map_map]
    refine map_congr_left fun x hx => ?_
    exact h x.1 x.2 (AList.mem_lookup_iff.mpr hx)
  rw [hkeys]
  exact d.keys_nodup

/-! ### Sums -/

def sum (f : K → V → ℕ) (d : Dict K V) : ℕ := (d.entries.map fun x => f x.1 x.2).sum

/-- What a key adds to a sum. -/
def share (f : K → V → ℕ) (d : Dict K V) (k : K) : ℕ := (d.lookup k).elim 0 (f k)

lemma share_of_some {f : K → V → ℕ} {k : K} {v : V} (h : d.lookup k = some v) :
    d.share f k = f k v := by
  rw [share, h, Option.elim_some]

lemma share_of_none {f : K → V → ℕ} {k : K} (h : d.lookup k = none) : d.share f k = 0 := by
  rw [share, h, Option.elim_none]

section

variable (f : K → V → ℕ)

private lemma sum_kerase (k : K) (l : List (Sigma fun _ : K => V)) :
    ((l.kerase k).map fun x => f x.1 x.2).sum + (l.dlookup k).elim 0 (f k) =
      (l.map fun x => f x.1 x.2).sum := by
  induction l with
  | nil => simp
  | cons x l ih =>
    obtain ⟨k', v⟩ := x
    by_cases hk : k = k'
    · subst hk
      simp [add_comm]
    · rw [kerase_cons_ne hk, dlookup_cons_ne _ _ hk]
      simp only [List.map_cons, List.sum_cons]
      omega

variable (d : Dict K V)

lemma sum_erase (k : K) : sum f (d.erase k) + share f d k = sum f d :=
  sum_kerase f k d.entries

lemma sum_insert (k : K) (v : V) : sum f (d.insert k v) + share f d k = sum f d + f k v := by
  have hkept := sum_kerase f k d.entries
  simp only [sum, share, entries_insert, List.map_cons, List.sum_cons]
  simp only [AList.lookup]
  omega

lemma share_le_sum (k : K) : share f d k ≤ sum f d := by
  have hkept := sum_erase f d k
  omega

end

/-! ### Many insertions -/

section InsertAll

variable {X : Type} (key : X → K) (value : X → V)

/-- Insert values from left to right. -/
def insertAll (d : Dict K V) (xs : List X) : Dict K V :=
  xs.foldl (fun d x => d.insert (key x) (value x)) d

variable {key value}

/-- What is found was there before or is one of the new values. -/
lemma lookup_insertAll_cases (d : Dict K V) (xs : List X) (k : K) :
    (d.insertAll key value xs).lookup k = d.lookup k ∨
      ∃ x ∈ xs, key x = k ∧ (d.insertAll key value xs).lookup k = some (value x) := by
  induction xs generalizing d with
  | nil => exact .inl rfl
  | cons x xs ih =>
    rcases ih (d.insert (key x) (value x)) with hsame | ⟨x', hx', hk, hnew⟩
    · rw [lookup_insert_apply] at hsame
      split_ifs at hsame with hk
      · exact .inr ⟨x, .head _, hk.symm, hsame⟩
      · exact .inl hsame
    · exact .inr ⟨x', .tail _ hx', hk, hnew⟩

lemma lookup_insertAll_of_ne {xs : List X} {k : K} (h : ∀ x ∈ xs, key x ≠ k) (d : Dict K V) :
    (d.insertAll key value xs).lookup k = d.lookup k := by
  rcases lookup_insertAll_cases d xs k with hsame | ⟨x, hx, hk, -⟩
  · exact hsame
  · exact absurd hk (h x hx)

lemma lookup_insertAll_of_mem {xs : List X} (hnodup : (xs.map key).Nodup) {x : X} (hx : x ∈ xs)
    (d : Dict K V) : (d.insertAll key value xs).lookup (key x) = some (value x) := by
  induction xs generalizing d with
  | nil => cases hx
  | cons x' xs ih =>
    rw [List.map_cons, nodup_cons] at hnodup
    rcases List.mem_cons.mp hx with rfl | hx
    · have hne : ∀ y ∈ xs, key y ≠ key x := fun y hy hkey =>
        hnodup.1 (hkey ▸ List.mem_map_of_mem hy)
      exact (lookup_insertAll_of_ne hne _).trans (by rw [lookup_insert_apply, if_pos rfl])
    · exact ih hnodup.2 hx _

end InsertAll

end Dict

end Core
