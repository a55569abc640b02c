import Mathlib

/-!
# Mountain ranges of perfect binary trees

Numbered leaves are hashed in blocks: block `m` of height `t` covers the `2 ^ t` leaves from
`2 ^ t * m` on. Stored in the order in which they become complete, the blocks of the first `n`
leaves fill `nodeCount n` places, and each stands at a place that depends on `t` and `m` alone. The
blocks that no other block of the first `n` leaves contains are the peaks, one for each binary
digit of `n`. A leaf is bound to the top of its block by the path of siblings, and the peaks are
bound together by a chain of hashes.
-/

namespace Core

open List Nat

/-! ### Binary digits -/

variable (n : ℕ)

/-- Number of ones among the binary digits. -/
def ones : ℕ := n.bitIndices.length

@[simp] lemma ones_zero : ones 0 = 0 := by simp [ones]

@[simp] lemma ones_two_mul : ones (2 * n) = ones n := by simp [ones]

@[simp] lemma ones_two_mul_add_one : ones (2 * n + 1) = ones n + 1 := by simp [ones]

@[simp] lemma ones_two_pow_mul (t n : ℕ) : ones (2 ^ t * n) = ones n := by simp [ones]

lemma ones_le : ones n ≤ n := by
  have hone : ∀ x ∈ n.bitIndices.map (2 ^ ·), 1 ≤ x := by
    intro x hx
    obtain ⟨i, -, rfl⟩ := List.mem_map.mp hx
    exact Nat.one_le_two_pow
  have hlength := length_le_sum_of_one_le _ hone
  rwa [length_map, sum_map_two_pow_bitIndices] at hlength

variable {t n : ℕ}

/-- Digits below a power of two are counted separately. -/
lemma ones_add {r : ℕ} (hr : r < 2 ^ t) (c : ℕ) : ones (2 ^ t * c + r) = ones c + ones r := by
  induction t generalizing r with
  | zero =>
    obtain rfl : r = 0 := by simpa using hr
    simp
  | succ t ih =>
    rcases Nat.even_or_odd' r with ⟨k, rfl | rfl⟩
    · rw [show 2 ^ (t + 1) * c + 2 * k = 2 * (2 ^ t * c + k) by ring, ones_two_mul, ones_two_mul]
      exact ih (by omega)
    · rw [show 2 ^ (t + 1) * c + (2 * k + 1) = 2 * (2 ^ t * c + k) + 1 by ring,
        ones_two_mul_add_one, ones_two_mul_add_one, ih (by omega)]
      rfl

/-- The digits of a number are found by looking at each of them. -/
lemma filter_testBit {w : ℕ} (hn : n < 2 ^ w) :
    ((List.range w).filter fun bit => n.testBit bit) = n.bitIndices := by
  refine List.SortedLT.eq_of_mem_iff ((sortedLT_range w).pairwise.filter _).sortedLT
    bitIndices_sorted fun t => ?_
  rw [mem_filter, mem_range, mem_bitIndices, and_iff_right_iff_imp]
  intro ht
  exact (Nat.pow_lt_pow_iff_right (by decide)).mp ((ge_two_pow_of_testBit ht).trans_lt hn)

/-! ### Places -/

/-- Number of complete blocks of the first `n` leaves. -/
def nodeCount (n : ℕ) : ℕ := 2 * n - ones n

/-- Place of block `m` of height `t`. -/
def position (t m : ℕ) : ℕ := nodeCount (2 ^ t * m) + (2 ^ (t + 1) - 2)

@[simp] lemma nodeCount_zero : nodeCount 0 = 0 := by simp [nodeCount]

lemma nodeCount_add_ones (n : ℕ) : nodeCount n + ones n = 2 * n := by
  have := ones_le n
  unfold nodeCount
  omega

lemma position_zero (m : ℕ) : position 0 m = nodeCount m := by simp [position]

/-- A block that is a left child is followed by its sibling and then by its parent. -/
lemma position_left (t c : ℕ) :
    position t (2 * c + 1) = position t (2 * c) + (2 ^ (t + 1) - 1) ∧
      position (t + 1) c = position t (2 * c + 1) + 1 := by
  have hleft := nodeCount_add_ones (2 ^ t * (2 * c))
  have hright := nodeCount_add_ones (2 ^ t * (2 * c + 1))
  have hparent := nodeCount_add_ones (2 ^ (t + 1) * c)
  simp only [ones_two_pow_mul, ones_two_mul, ones_two_mul_add_one] at hleft hright hparent
  have hpow := Nat.one_lt_two_pow t.succ_ne_zero
  have hpow' : 2 ^ (t + 2) = 2 * 2 ^ (t + 1) := pow_succ' 2 (t + 1)
  have hmul : 2 * (2 ^ t * (2 * c + 1)) = 2 * (2 ^ t * (2 * c)) + 2 ^ (t + 1) := by ring
  have hmul' : 2 ^ (t + 1) * c = 2 ^ t * (2 * c) := by ring
  unfold position
  rw [hmul']
  omega

/-- The block that ends with the last of `n` leaves is the last one if it is a left child. -/
lemma nodeCount_left (t c : ℕ) : nodeCount (2 ^ t * (2 * c + 1)) = position t (2 * c) + 1 := by
  have hleft := position_left t c
  have hpow := Nat.one_lt_two_pow t.succ_ne_zero
  simp only [position] at hleft ⊢
  omega

lemma nodeCount_lt_succ (n : ℕ) : nodeCount n < nodeCount (n + 1) := by
  have h := nodeCount_add_ones n
  have h' := nodeCount_add_ones (n + 1)
  have hones : ones (n + 1) ≤ ones n + 1 := by
    induction n using Nat.strong_induction_on with
    | _ n ih =>
      rcases Nat.even_or_odd' n with ⟨k, rfl | rfl⟩
      · simp
      · have hk : ones (k + 1) ≤ ones k + 1 :=
          ih k (by omega) (nodeCount_add_ones k) (nodeCount_add_ones (k + 1))
        rw [show 2 * k + 1 + 1 = 2 * (k + 1) by ring, ones_two_mul, ones_two_mul_add_one]
        omega
  omega

lemma nodeCount_strictMono : StrictMono nodeCount := strictMono_nat_of_lt_succ nodeCount_lt_succ

/-- A block that is not complete has no place among the first `n` leaves. -/
lemma nodeCount_le_position {m : ℕ} (h : n < 2 ^ t * (m + 1)) : nodeCount n ≤ position t m := by
  by_cases hlow : n ≤ 2 ^ t * m
  · exact (nodeCount_strictMono.monotone hlow).trans (le_self_add)
  · obtain ⟨r, rfl⟩ := Nat.exists_eq_add_of_le (not_le.mp hlow).le
    have hr : r < 2 ^ t := by
      rw [mul_add] at h
      omega
    have hn := nodeCount_add_ones (2 ^ t * m + r)
    have hbase := nodeCount_add_ones (2 ^ t * m)
    rw [ones_add hr] at hn
    rw [ones_two_pow_mul] at hbase
    unfold position
    omega

/-! ### Blocks -/

section

variable {H : Type*} (hash : H → H → H) (leaves : ℕ → H)

/-- Hash at the top of block `m` of height `t`. -/
def block : ℕ → ℕ → H
  | 0, m => leaves m
  | t + 1, m => hash (block t (2 * m)) (block t (2 * m + 1))

/-- Number of the block that shares its parent with block `m`. -/
def sibling (m : ℕ) : ℕ := if m % 2 = 0 then m + 1 else m - 1

/-- Siblings of the blocks above leaf `i`, `k` of them from height `t` on. -/
def path (i : ℕ) : ℕ → ℕ → List H
  | _, 0 => []
  | t, k + 1 => block hash leaves t (sibling (i >>> t)) :: path i (t + 1) k

/-- Hash up from height `t` with a list of siblings; digit `t` of the index tells the side. -/
def climb (i : ℕ) : ℕ → List H → H → H
  | _, [], current => current
  | t, s :: ss, current =>
    climb i (t + 1) ss (if (i >>> t) % 2 = 0 then hash current s else hash s current)

/-- The pairs that are hashed on that way. -/
def climbPairs (i : ℕ) : ℕ → List H → H → List (H × H)
  | _, [], _ => []
  | t, s :: ss, current =>
    let pair := if (i >>> t) % 2 = 0 then (current, s) else (s, current)
    pair :: climbPairs i (t + 1) ss (hash pair.1 pair.2)

/-- Hash a list of peaks together from the right; `empty` stands for no peaks. -/
def bag (empty : H) : List H → H
  | [] => empty
  | [p] => p
  | p :: ps => hash p (bag empty ps)

variable {hash leaves}

lemma length_path (i t k : ℕ) : (path hash leaves i t k).length = k := by
  induction k generalizing t with
  | zero => rfl
  | succ k ih => rw [path, length_cons, ih]

lemma block_succ_of_even {m : ℕ} (hm : m % 2 = 0) (t : ℕ) :
    block hash leaves (t + 1) (m / 2) =
      hash (block hash leaves t m) (block hash leaves t (sibling m)) := by
  rw [block, sibling, if_pos hm, show 2 * (m / 2) = m by omega]

lemma block_succ_of_odd {m : ℕ} (hm : ¬ m % 2 = 0) (t : ℕ) :
    block hash leaves (t + 1) (m / 2) =
      hash (block hash leaves t (sibling m)) (block hash leaves t m) := by
  rw [block, sibling, if_neg hm, show 2 * (m / 2) = m - 1 by omega, show m - 1 + 1 = m by omega]

/-- The siblings of a leaf lead to the block above it. -/
lemma climb_path (i t k : ℕ) :
    climb hash i t (path hash leaves i t k) (block hash leaves t (i >>> t)) =
      block hash leaves (t + k) (i >>> (t + k)) := by
  induction k generalizing t with
  | zero => rfl
  | succ k ih =>
    have hstep : (if (i >>> t) % 2 = 0 then
          hash (block hash leaves t (i >>> t)) (block hash leaves t (sibling (i >>> t)))
        else hash (block hash leaves t (sibling (i >>> t))) (block hash leaves t (i >>> t))) =
        block hash leaves (t + 1) (i >>> (t + 1)) := by
      split_ifs with hside
      · exact (block_succ_of_even hside t).symm
      · exact (block_succ_of_odd hside t).symm
    rw [path, climb, hstep, ih, add_right_comm, add_assoc]

/-- Whatever leads to a block is below it, at the place the digits of the index tell, if no two
pairs on the way and below the block have one hash. -/
lemma eq_block_of_climb {P : Set (H × H)} (hinj : P.InjOn fun x => hash x.1 x.2) {i t m : ℕ}
    {siblings : List H} {h : H} (hpairs : ∀ x ∈ climbPairs hash i t siblings h, x ∈ P)
    (hblocks : ∀ k < siblings.length, ∀ m', m' / 2 ^ (siblings.length - (k + 1)) = m →
      (block hash leaves (t + k) (2 * m'), block hash leaves (t + k) (2 * m' + 1)) ∈ P)
    (heq : climb hash i t siblings h = block hash leaves (t + siblings.length) m) :
    h = block hash leaves t (2 ^ siblings.length * m + (i >>> t) % 2 ^ siblings.length) := by
  induction siblings generalizing t h with
  | nil => simpa [climb, mod_one] using heq
  | cons s ss ih =>
    rw [climbPairs, forall_mem_cons] at hpairs
    rw [length_cons, ← add_assoc, add_right_comm] at heq
    have hnext : climb hash i t (s :: ss) h = climb hash i (t + 1) ss
        (hash (if (i >>> t) % 2 = 0 then (h, s) else (s, h)).1
          (if (i >>> t) % 2 = 0 then (h, s) else (s, h)).2) := by
      rw [climb]
      split_ifs <;> rfl
    have hblock := ih hpairs.2 (fun k hk m' hm' => by
      rw [add_right_comm]
      exact hblocks (k + 1) (Nat.succ_lt_succ hk) m' (by simpa using hm')) (hnext ▸ heq)
    have hindex : 2 ^ (ss.length + 1) * m + (i >>> t) % 2 ^ (ss.length + 1) =
        2 * (2 ^ ss.length * m + (i >>> (t + 1)) % 2 ^ ss.length) + (i >>> t) % 2 := by
      rw [Nat.shiftRight_succ, pow_succ', mod_mul]
      ring
    set m' := 2 ^ ss.length * m + (i >>> (t + 1)) % 2 ^ ss.length
    have hdiv : m' / 2 ^ ss.length = m := by
      have hpos : 0 < 2 ^ ss.length := by positivity
      rw [mul_add_div hpos, Nat.div_eq_of_lt (mod_lt _ hpos), add_zero]
    have hpair := hinj hpairs.1 (hblocks 0 (succ_pos _) m' (by simpa using hdiv)) hblock
    rw [length_cons, hindex]
    split_ifs at hpair with hside
    · rw [hside]
      exact congrArg Prod.fst hpair
    · rw [show (i >>> t) % 2 = 1 by omega]
      exact congrArg Prod.snd hpair

/-- Lists of peaks of one length are bound by their hash. -/
lemma bag_injective (hinj : Function.Injective2 hash) (empty : H) {ps qs : List H}
    (hlength : ps.length = qs.length) (h : bag hash empty ps = bag hash empty qs) : ps = qs := by
  induction ps generalizing qs with
  | nil => exact (eq_nil_of_length_eq_zero hlength.symm).symm
  | cons p ps ih =>
    obtain ⟨q, qs, rfl⟩ := exists_cons_of_length_eq_add_one hlength.symm
    have htails : ps.length = qs.length := Nat.succ.inj hlength
    cases ps with
    | nil =>
      obtain rfl := eq_nil_of_length_eq_zero htails.symm
      rw [show p = q from h]
    | cons p' ps =>
      obtain ⟨q', qs, rfl⟩ := exists_cons_of_length_eq_add_one htails.symm
      obtain ⟨rfl, htail⟩ := hinj h
      rw [ih htails htail]

end

/-! ### Peaks -/

/-- Number of the peak of height `t`, for a binary digit `t` of `n`. -/
def peak (n t : ℕ) : ℕ := 2 * (n >>> (t + 1))

lemma shiftRight_of_testBit (h : n.testBit t = true) : n >>> t = peak n t + 1 := by
  have hodd : (n >>> t) % 2 = 1 := by
    rw [shiftRight_eq_div_pow]
    rwa [testBit_eq_decide_div_mod_eq, decide_eq_true_eq] at h
  rw [peak, Nat.shiftRight_succ]
  omega

/-- A complete block whose parent is not complete is a peak. -/
lemma eq_peak {m : ℕ} (hblock : 2 ^ t * (m + 1) ≤ n) (hparent : n < 2 ^ (t + 1) * (m / 2 + 1)) :
    n.testBit t = true ∧ m = peak n t := by
  have heven : m % 2 = 0 := by
    by_contra hodd
    have : 2 ^ (t + 1) * (m / 2 + 1) = 2 ^ t * (m + 1) := by
      rw [pow_succ, mul_assoc]
      congr 1
      omega
    omega
  have hshift : n >>> t = m + 1 := by
    rw [shiftRight_eq_div_pow]
    refine Nat.div_eq_of_lt_le ?_ ?_
    · rwa [mul_comm]
    · rw [pow_succ, mul_assoc] at hparent
      rw [mul_comm]
      refine hparent.trans_le ?_
      apply Nat.mul_le_mul_left
      omega
  refine ⟨?_, ?_⟩
  · rw [testBit_eq_decide_div_mod_eq, decide_eq_true_eq]
    omega
  · rw [peak, Nat.shiftRight_succ]
    omega

/-- Higher peaks come first. -/
lemma position_peak_lt {t' : ℕ} (hlt : t < t') (ht : n.testBit t = true)
    (ht' : n.testBit t' = true) :
    position t' (peak n t') < position t (peak n t) := by
  have hcount (s : ℕ) (hs : n.testBit s = true) :
      position s (peak n s) + 1 = nodeCount (n - n % 2 ^ s) := by
    have hlow : n - n % 2 ^ s = 2 ^ s * (n >>> s) := by
      have := div_add_mod n (2 ^ s)
      rw [shiftRight_eq_div_pow]
      omega
    rw [hlow, shiftRight_of_testBit hs, peak, nodeCount_left]
  have hmod : n % 2 ^ t < n % 2 ^ t' := by
    have hdigit : n % 2 ^ (t + 1) = n % 2 ^ t + 2 ^ t := by
      rw [testBit_eq_decide_div_mod_eq, decide_eq_true_eq] at ht
      rw [pow_succ, mod_mul, ht, mul_one]
    have hle : n % 2 ^ (t + 1) ≤ n % 2 ^ t' := by
      rw [← mod_mod_of_dvd n (pow_dvd_pow 2 hlt)]
      exact mod_le _ _
    omega
  have hle := mod_le n (2 ^ t')
  have := nodeCount_strictMono (show n - n % 2 ^ t' < n - n % 2 ^ t by omega)
  have h := hcount t ht
  have h' := hcount t' ht'
  omega

end Core
