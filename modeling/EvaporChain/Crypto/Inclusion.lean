import EvaporChain.Crypto.Accumulator

/-!
# Inclusion proofs of the mountain range

After any appends the array holds every complete block of leaves at its place. So a prover finds
the siblings and the peaks, and the verifier accepts the proof. Conversely what a verifier accepts
is a leaf below the peak that the proof names, at the offset that the low digits of the leaf index
tell. It is the leaf at the leaf index only if that index is below this peak.
-/

namespace EvaporChain

open Core List

namespace MerkleMountainRange

variable {H : Type} {hashPair : H → H → H} {leaves : ℕ → H}

/-! ### Appending -/

/-- The array holds the complete blocks of the first `n` leaves, each at its place. -/
structure Stores (hashPair : H → H → H) (leaves : ℕ → H) (n : ℕ) (nodes : List H) : Prop where
  length : nodes.length = nodeCount n
  block : ∀ t m, 2 ^ t * (m + 1) ≤ n → nodes[position t m]? = some (block hashPair leaves t m)

/-- The array while leaf `n` is appended: its blocks are there up to height `t`. -/
structure Merging (hashPair : H → H → H) (leaves : ℕ → H) (n t m : ℕ) (nodes : List H) : Prop where
  last : 2 ^ t * (m + 1) = n + 1
  length : nodes.length = position t m + 1
  old : ∀ t' m', 2 ^ t' * (m' + 1) ≤ n →
    nodes[position t' m']? = some (Core.block hashPair leaves t' m')
  new : ∀ t' m', t' ≤ t → 2 ^ t' * (m' + 1) = n + 1 →
    nodes[position t' m']? = some (Core.block hashPair leaves t' m')

lemma getElem?_concat_of_some {l : List H} {i : ℕ} {a b : H} (h : l[i]? = some a) :
    (l ++ [b])[i]? = some a := by
  rw [getElem?_append_left (List.getElem?_eq_some_iff.mp h).1, h]

namespace Merging

variable {n t m : ℕ} {nodes : List H}

lemma shiftRight (h : Merging hashPair leaves n t m nodes) : n >>> t = m := by
  have := h.last
  rw [Nat.shiftRight_eq_div_pow]
  refine Nat.div_eq_of_lt_le ?_ ?_
  · rw [mul_comm]
    rw [mul_add] at this
    have := Nat.two_pow_pos t
    omega
  · rw [mul_comm]
    omega

/-- A leaf was pushed. -/
lemma start {nodes : List H} (h : Stores hashPair leaves n nodes) :
    Merging hashPair leaves n 0 n (nodes ++ [leaves n]) where
  last := by rw [pow_zero, one_mul]
  length := by rw [length_append, h.length, position_zero, length_singleton]
  old t m hm := getElem?_concat_of_some (h.block t m hm)
  new t m ht hm := by
    obtain rfl := Nat.le_zero.mp ht
    obtain rfl : m = n := by simpa using hm
    rw [position_zero, ← h.length, getElem?_concat_length]
    rfl

/-- A right child is merged with its left sibling. -/
lemma next (h : Merging hashPair leaves n t m nodes) (hodd : m % 2 = 1) :
    2 ^ (t + 1) - 1 ≤ nodes.length - 1 ∧
    nodes[nodes.length - 1 - (2 ^ (t + 1) - 1)]? = some (Core.block hashPair leaves t (m - 1)) ∧
    Merging hashPair leaves n (t + 1) (m / 2)
      (nodes ++ [Core.block hashPair leaves (t + 1) (m / 2)]) := by
  obtain ⟨c, rfl⟩ : ∃ c, m = 2 * c + 1 := ⟨m / 2, by omega⟩
  have hlast := h.last
  have hlength := h.length
  obtain ⟨hleft, hparent⟩ := position_left t c
  have hpow := Nat.two_pow_pos t
  rw [show (2 * c + 1) / 2 = c by omega]
  refine ⟨by omega, ?_, ?_, ?_, ?_, ?_⟩
  · rw [show nodes.length - 1 - (2 ^ (t + 1) - 1) = position t (2 * c) by omega]
    apply h.old
    rw [mul_add] at hlast
    omega
  · rw [pow_succ, mul_assoc]
    congr 1
  · rw [length_append, hlength, hparent, length_singleton]
  · exact fun t' m' hm' => getElem?_concat_of_some (h.old t' m' hm')
  · intro t' m' ht' hm'
    rcases Nat.le_succ_iff.mp ht' with ht' | rfl
    · exact getElem?_concat_of_some (h.new t' m' ht' hm')
    · have heq : 2 ^ (t + 1) * (m' + 1) = 2 ^ (t + 1) * (c + 1) := by
        rw [hm', ← hlast, pow_succ, mul_assoc]
        congr 1
      obtain rfl : m' = c := by
        have := Nat.eq_of_mul_eq_mul_left (Nat.two_pow_pos _) heq
        omega
      rw [show position (t + 1) m' = nodes.length by omega, getElem?_concat_length]

/-- At a left child all blocks are there. -/
lemma stores (h : Merging hashPair leaves n t m nodes) (heven : m % 2 ≠ 1) :
    Stores hashPair leaves (n + 1) nodes := by
  obtain ⟨c, rfl⟩ : ∃ c, m = 2 * c := ⟨m / 2, by omega⟩
  have hlast := h.last
  refine ⟨by rw [h.length, ← hlast, nodeCount_left], fun t' m' hm' => ?_⟩
  rcases Nat.le_succ_iff.mp hm' with hm' | hm'
  · exact h.old t' m' hm'
  · refine h.new t' m' ?_ hm'
    -- a higher block that ends here would make this one a right child
    by_contra hlt
    obtain ⟨k, rfl⟩ := Nat.exists_eq_add_of_lt (not_le.mp hlt)
    rw [Nat.succ_eq_add_one, ← hlast, pow_succ, pow_add, mul_assoc, mul_assoc] at hm'
    have := Nat.eq_of_mul_eq_mul_left (Nat.two_pow_pos t) hm'
    have hdvd : 2 ∣ 2 ^ k * (2 * (m' + 1)) := ⟨2 ^ k * (m' + 1), by ring⟩
    omega

end Merging

variable {n : ℕ} {m : MerkleMountainRange H}

/-- Whatever the merging leaves holds the blocks, and in a word it always ends. -/
lemma mergeLoop_spec {t m : ℕ} {nodes : List H} (h : Merging hashPair leaves n t m nodes)
    (fuel : ℕ) :
    (∀ nodes', mergeLoop hashPair n fuel t nodes (block hashPair leaves t m) = some nodes' →
      Stores hashPair leaves (n + 1) nodes') ∧
    (m + 1 < 2 ^ fuel →
      (mergeLoop hashPair n fuel t nodes (block hashPair leaves t m)).isSome) := by
  induction fuel generalizing t m nodes with
  | zero => exact ⟨fun _ hnone => (nomatch hnone), fun hlt => absurd hlt (by simp)⟩
  | succ fuel ih =>
    rw [mergeLoop, h.shiftRight]
    by_cases hodd : m % 2 = 1
    · obtain ⟨hlow, hleft, hnext⟩ := h.next hodd
      have hblock : hashPair (block hashPair leaves t (m - 1)) (block hashPair leaves t m) =
          block hashPair leaves (t + 1) (m / 2) := by
        rw [block, show 2 * (m / 2) = m - 1 by omega, show m - 1 + 1 = m by omega]
      simp only [if_pos hodd, if_neg (not_lt.mpr hlow), hleft, hblock]
      refine ⟨(ih hnext).1, fun hlt => (ih hnext).2 ?_⟩
      omega
    · rw [if_neg hodd]
      refine ⟨fun nodes' heq => ?_, fun _ => rfl⟩
      cases heq
      exact h.stores hodd

/-! ### Whole ranges -/

/-- The nodes are those of the first leaves of a sequence. -/
def Represents (hashPair : H → H → H) (leaves : ℕ → H) (m : MerkleMountainRange H) : Prop :=
  Stores hashPair leaves m.leafCount m.nodes

lemma represents_new : Represents hashPair leaves new := by
  refine ⟨by simp [new], fun t m hm => ?_⟩
  have := Nat.two_pow_pos t
  simp only [new, Nat.le_zero, mul_eq_zero] at hm
  omega

lemma Represents.append {m' : MerkleMountainRange H} (h : Represents hashPair leaves m)
    (happend : m.append hashPair (leaves m.leafCount) = some m') :
    Represents hashPair leaves m' ∧ m'.leafCount = m.leafCount + 1 := by
  obtain ⟨nodes, hnodes, rfl⟩ := Option.map_eq_some_iff.mp happend
  exact ⟨(mergeLoop_spec (Merging.start h) 64).1 nodes hnodes, rfl⟩

lemma Represents.append_isSome (h : Represents hashPair leaves m) (hlt : m.leafCount + 1 < 2 ^ 64) :
    ∃ m', m.append hashPair (leaves m.leafCount) = some m' := by
  obtain ⟨nodes, hnodes⟩ := Option.isSome_iff_exists.mp
    ((mergeLoop_spec (Merging.start h) 64).2 hlt)
  exact ⟨_, Option.map_eq_some_iff.mpr ⟨nodes, hnodes, rfl⟩⟩

/-- Appending the next leaves of the sequence. -/
lemma Represents.foldlM (h : Represents hashPair leaves m) {rest : List H}
    (hrest : ∀ i a, rest[i]? = some a → leaves (m.leafCount + i) = a) :
    (∀ m', rest.foldlM (MerkleMountainRange.append hashPair) m = some m' →
      Represents hashPair leaves m' ∧ m'.leafCount = m.leafCount + rest.length) ∧
    (m.leafCount + rest.length < 2 ^ 64 →
      ∃ m', rest.foldlM (MerkleMountainRange.append hashPair) m = some m') := by
  induction rest generalizing m with
  | nil =>
    refine ⟨fun m' heq => ?_, fun _ => ⟨m, rfl⟩⟩
    cases heq
    exact ⟨h, rfl⟩
  | cons a rest ih =>
    obtain rfl := hrest 0 a rfl
    have hnext {m₁ : MerkleMountainRange H}
        (happend : m.append hashPair (leaves m.leafCount) = some m₁) :=
      have hcount := (h.append happend).2
      ih (h.append happend).1 fun i b hb => by
        rw [hcount, add_assoc, add_comm 1]
        exact hrest (i + 1) b hb
    simp only [foldlM_cons, Option.bind_eq_bind, Option.bind_eq_some_iff, length_cons]
    constructor
    · rintro m' ⟨m₁, happend, hrun⟩
      obtain ⟨hm', hcount'⟩ := (hnext happend).1 m' hrun
      refine ⟨hm', ?_⟩
      rw [hcount', (h.append happend).2]
      omega
    · intro hlt
      obtain ⟨m₁, happend⟩ := h.append_isSome (by omega)
      obtain ⟨m', hm'⟩ := (hnext happend).2 (by rw [(h.append happend).2]; omega)
      exact ⟨m', m₁, happend, hm'⟩

def leafAt (zero : H) (leaves : List H) (i : ℕ) : H := leaves.getD i zero

lemma ofLeaves_spec (hashPair : H → H → H) (zero : H) (leaves : List H) :
    (∀ m, ofLeaves hashPair leaves = some m →
      Represents hashPair (leafAt zero leaves) m ∧ m.leafCount = leaves.length) ∧
    (leaves.length < 2 ^ 64 → ∃ m, ofLeaves hashPair leaves = some m) := by
  have hnew : Represents hashPair (leafAt zero leaves) new := represents_new
  have hleaves : ∀ i a, leaves[i]? = some a →
      leafAt zero leaves (new (H := H).leafCount + i) = a := by
    intro i a ha
    simp [new, leafAt, ha]
  have hspec := hnew.foldlM hleaves
  rwa [show (new : MerkleMountainRange H).leafCount = 0 from rfl, zero_add] at hspec

/-! ### Peaks -/

lemma countOnes_eq (hn : n < 2 ^ 64) : countOnes n = ones n := by
  rw [countOnes, filter_testBit hn, ones]

lemma peakHeightsFromLeafCount_eq (hn : n < 2 ^ 64) :
    peakHeightsFromLeafCount n = n.bitIndices.reverse := by
  rw [peakHeightsFromLeafCount, filter_reverse, filter_testBit hn]

/-- Below height `h`, the walk finds the peaks of the remaining digits. -/
lemma peakLoop_eq (n h : ℕ) :
    peakLoop h (n % 2 ^ h) (nodeCount (2 ^ h * (n >>> h))) =
      ((List.range h).filter fun t => n.testBit t).reverse.map fun t => position t (peak n t) := by
  induction h with
  | zero => rfl
  | succ h ih =>
    have hmod : n % 2 ^ (h + 1) = n % 2 ^ h + 2 ^ h * (n / 2 ^ h % 2) := by
      rw [pow_succ, Nat.mod_mul]
    have hbase : 2 ^ (h + 1) * (n >>> (h + 1)) = 2 ^ h * peak n h := by
      rw [peak, pow_succ, mul_assoc]
    rw [range_succ, filter_append, reverse_append, map_append, ← ih, peakLoop,
      hbase]
    by_cases hbit : n.testBit h = true
    · have hone : n / 2 ^ h % 2 = 1 := by
        rwa [Nat.testBit_eq_decide_div_mod_eq, decide_eq_true_eq] at hbit
      have hcount : nodeCount (2 ^ h * (n >>> h)) = position h (peak n h) + 1 := by
        rw [shiftRight_of_testBit hbit, peak, nodeCount_left]
      have hpos : position h (peak n h) = nodeCount (2 ^ h * peak n h) + (2 ^ (h + 1) - 2) := rfl
      rw [hone] at hmod
      rw [hmod, hcount]
      dsimp only
      rw [show nodeCount (2 ^ h * peak n h) + (2 * 2 ^ h - 1) = position h (peak n h) + 1 by omega]
      simp [hbit]
    · have hzero : n / 2 ^ h % 2 = 0 := by
        rw [Nat.testBit_eq_decide_div_mod_eq, decide_eq_true_eq] at hbit
        omega
      have heven : n >>> h = peak n h := by
        rw [peak, Nat.shiftRight_succ]
        omega
      rw [hzero] at hmod
      rw [if_neg (by omega), hmod, heven]
      simp [hbit]

/-- The peaks of the first `n` leaves, from the highest to the lowest. -/
def peaksOf (hashPair : H → H → H) (leaves : ℕ → H) (n : ℕ) : List H :=
  n.bitIndices.reverse.map fun t => block hashPair leaves t (peak n t)

lemma peakPositions_eq (m : MerkleMountainRange H) :
    m.peakPositions =
      m.leafCount.bitIndices.reverse.map fun t => position t (peak m.leafCount t) := by
  have hlt : m.leafCount < 2 ^ ((max m.leafCount 1).log2 + 1) :=
    (le_max_left _ _).trans_lt Nat.lt_log2_self
  have hloop := peakLoop_eq m.leafCount ((max m.leafCount 1).log2 + 1)
  rw [filter_testBit hlt, Nat.mod_eq_of_lt hlt, Nat.shiftRight_eq_div_pow,
    Nat.div_eq_of_lt hlt] at hloop
  exact hloop

lemma mapM_map_eq_some {α β γ : Type} {f : β → Option γ} {p : α → β} {g : α → γ} {l : List α}
    (h : ∀ x ∈ l, f (p x) = some (g x)) : (l.map p).mapM f = some (l.map g) := by
  induction l with
  | nil => rfl
  | cons x l ih =>
    rw [map_cons, mapM_cons, h x (.head _),
      ih fun y hy => h y (.tail _ hy)]
    rfl

namespace Represents

variable {m : MerkleMountainRange H} (h : Represents hashPair leaves m)

include h

/-- Every peak stands at its place. -/
lemma getElem?_peak {t : ℕ} (ht : t ∈ m.leafCount.bitIndices) :
    m.nodes[position t (peak m.leafCount t)]? =
      some (block hashPair leaves t (peak m.leafCount t)) := by
  apply h.block
  rw [← shiftRight_of_testBit (Nat.mem_bitIndices.mp ht), Nat.shiftRight_eq_div_pow]
  exact Nat.mul_div_le _ _

lemma root_eq (zero : H) :
    m.root hashPair zero = some (bag hashPair zero (peaksOf hashPair leaves m.leafCount)) := by
  rw [root, peakHashes, peakPositions_eq]
  rw [mapM_map_eq_some fun t ht => h.getElem?_peak (mem_reverse.mp ht)]
  rfl

end Represents

/-! ### Proving -/

/-- Places of the sibling and of the parent of a block. -/
lemma neighbours (t m : ℕ) :
    (if m % 2 = 0 then
      (position t m + (2 ^ (t + 1) - 1), position t m + (2 ^ (t + 1) - 1) + 1)
    else (position t m - (2 ^ (t + 1) - 1), position t m + 1)) =
      (position t (sibling m), position (t + 1) (m / 2)) := by
  obtain ⟨hleft, hparent⟩ := position_left t (m / 2)
  unfold sibling
  split_ifs with heven
  · rw [show 2 * (m / 2) = m by omega] at hleft hparent
    rw [hparent, hleft]
  · rw [show 2 * (m / 2) + 1 = m by omega] at hleft hparent
    rw [show 2 * (m / 2) = m - 1 by omega] at hleft
    rw [hparent, hleft, Nat.add_sub_cancel]

lemma sibling_succ_le (m : ℕ) : sibling m + 1 ≤ 2 * (m / 2 + 1) := by
  unfold sibling
  split_ifs <;> omega

/-- From a complete block on, the prover collects the siblings up to the peak. -/
lemma siblingLoop_spec {nodes : List H} (h : Stores hashPair leaves n nodes) (i fuel : ℕ) {t : ℕ}
    (hblock : 2 ^ t * ((i >>> t) + 1) ≤ n) (hfuel : n < 2 ^ (t + fuel)) (siblings : List H) :
    ∃ k, siblingLoop nodes i fuel t (position t (i >>> t)) siblings =
        some (siblings ++ path hashPair leaves i t k, position (t + k) (i >>> (t + k))) ∧
      2 ^ (t + k) * ((i >>> (t + k)) + 1) ≤ n ∧
      n < 2 ^ (t + k + 1) * ((i >>> (t + k)) / 2 + 1) := by
  induction fuel generalizing t siblings with
  | zero =>
    have := Nat.le_mul_of_pos_right (2 ^ t) (Nat.zero_lt_of_ne_zero (Nat.succ_ne_zero (i >>> t)))
    exact absurd (this.trans hblock) (not_le.mpr hfuel)
  | succ fuel ih =>
    rw [siblingLoop]
    simp only [neighbours]
    by_cases hparent : 2 ^ (t + 1) * ((i >>> t) / 2 + 1) ≤ n
    · have hnode := h.block (t + 1) _ hparent
      have hsibling : nodes[position t (sibling (i >>> t))]? =
          some (block hashPair leaves t (sibling (i >>> t))) := by
        apply h.block
        refine le_trans ?_ hparent
        rw [pow_succ, mul_assoc]
        exact Nat.mul_le_mul_left _ (sibling_succ_le _)
      rw [if_neg (not_le.mpr (List.getElem?_eq_some_iff.mp hnode).1)]
      simp only [hsibling]
      rw [← Nat.shiftRight_succ]
      obtain ⟨k, hloop, hcomplete, hincomplete⟩ := ih (t := t + 1)
        (by rwa [Nat.shiftRight_succ]) (by rwa [add_right_comm]) _
      refine ⟨k + 1, ?_, ?_, ?_⟩
      · rw [hloop, path, append_assoc, singleton_append, add_right_comm, add_assoc]
      · rwa [add_right_comm] at hcomplete
      · rwa [add_right_comm t 1 k] at hincomplete
    · rw [if_pos (by rw [h.length]; exact nodeCount_le_position (not_le.mp hparent))]
      exact ⟨0, by simp [path], hblock, not_le.mp hparent⟩

/-- Collecting the other peaks when the own one is among them. -/
lemma otherPeaks_eq {nodes : List H} {place : ℕ → ℕ} {value : ℕ → H} {ps qs : List ℕ} {pos : ℕ}
    (hps : ∀ t ∈ ps, place t ≠ pos ∧ nodes[place t]? = some (value t))
    (hqs : ∀ t ∈ qs, place t ≠ pos ∧ nodes[place t]? = some (value t)) :
    otherPeaks nodes pos (ps.map place ++ pos :: qs.map place) =
      some (ps.map value ++ qs.map value, ps.length) := by
  have hskip (l : List ℕ) (hl : ∀ t ∈ l, place t ≠ pos ∧ nodes[place t]? = some (value t))
      (start : ℕ) (acc : List H × ℕ) : ((l.map place).zipIdx start).foldlM (fun acc x =>
        if x.1 = pos then some (acc.1, x.2)
        else nodes[x.1]?.map fun h => (acc.1 ++ [h], acc.2)) acc =
      some (acc.1 ++ l.map value, acc.2) := by
    induction l generalizing start acc with
    | nil => simp
    | cons t l ih =>
      obtain ⟨hne, ht⟩ := hl t (.head _)
      rw [map_cons, zipIdx_cons, foldlM_cons]
      simp only [hne, if_false, ht, Option.map_some, Option.bind_eq_bind, Option.bind_some]
      rw [ih fun t ht => hl t (.tail _ ht)]
      simp
  rw [otherPeaks, zipIdx_append, foldlM_append, hskip ps hps]
  simp only [Option.bind_eq_bind, Option.bind_some, zipIdx_cons, foldlM_cons, if_true]
  rw [hskip qs hqs]
  simp

/-- One step of the loop over the positions in `withPeak`. -/
def peakStep (peaks : List H) (k : ℕ) (current : H) (acc : List H × ℕ) (i : ℕ) : List H × ℕ :=
  if i = k then (acc.1 ++ [current], acc.2)
  else match peaks[acc.2]? with
    | none => acc
    | some h => (acc.1 ++ [h], acc.2 + 1)

/-- The loop over the positions puts the peak in its place. -/
lemma withPeak_eq {peaks : List H} {k : ℕ} (hk : k ≤ peaks.length) (current : H) :
    withPeak peaks k current = peaks.take k ++ current :: peaks.drop k := by
  have hbefore : ∀ j ≤ k,
      (List.range j).foldl (peakStep peaks k current) ([], 0) = (peaks.take j, j) := by
    intro j hj
    induction j with
    | zero => rfl
    | succ j ih =>
      rw [range_succ, foldl_concat, ih (Nat.le_of_succ_le hj)]
      have hlt : j < peaks.length := by omega
      simp only [peakStep, getElem?_eq_getElem hlt, if_neg (show j ≠ k by omega)]
      rw [take_add_one, getElem?_eq_getElem hlt, Option.toList_some]
  have hafter : ∀ j ≤ peaks.length - k,
      (List.range (k + 1 + j)).foldl (peakStep peaks k current) ([], 0) =
        (peaks.take k ++ current :: (peaks.drop k).take j, k + j) := by
    intro j hj
    induction j with
    | zero =>
      rw [range_succ, foldl_concat, hbefore k le_rfl]
      simp [peakStep]
    | succ j ih =>
      rw [← add_assoc, range_succ, foldl_concat, ih (by omega)]
      have hlt : k + j < peaks.length := by omega
      simp only [peakStep, getElem?_eq_getElem hlt, if_neg (show k + 1 + j ≠ k by omega)]
      rw [take_add_one, getElem?_drop, getElem?_eq_getElem hlt, Option.toList_some,
        append_assoc, cons_append, add_assoc]
  have hall := hafter (peaks.length - k) le_rfl
  have hrest : (peaks.drop k).take (peaks.length - k) = peaks.drop k := by
    rw [← length_drop, take_length]
  rw [show k + 1 + (peaks.length - k) = peaks.length + 1 by omega, hrest] at hall
  exact congrArg Prod.fst hall

/-! ### The leaf count of a size -/

lemma size_eq {x : ℕ} (hx : x < 2 ^ 64) :
    (2 * x + 2 ^ 64 - countOnes x) % 2 ^ 64 = nodeCount x % 2 ^ 64 := by
  have := nodeCount_add_ones x
  rw [countOnes_eq hx, show 2 * x + 2 ^ 64 - ones x = nodeCount x + 2 ^ 64 by omega,
    Nat.add_mod_right]

/-- The search in arithmetic that stops at an overflow: there is no result if one occurs, and none
if the loop does not end. -/
def searchChecked (mmrSize : ℕ) : ℕ → ℕ → ℕ → Option (Option ℕ)
  | 0, _, _ => none
  | fuel + 1, lo, hi =>
    if hi < lo then some none
    else
      let mid := lo + (hi - lo) / 2
      if 2 ^ 64 ≤ 2 * mid ∨ 2 * mid < countOnes mid then none
      else
        let sz := 2 * mid - countOnes mid
        if sz = mmrSize then some (some mid)
        else if sz < mmrSize then searchChecked mmrSize fuel (mid + 1) hi
        else if mid = 0 then some none
        else searchChecked mmrSize fuel lo (mid - 1)

def leafCountChecked (mmrSize : ℕ) : Option (Option ℕ) :=
  if mmrSize = 0 then some (some 0) else searchChecked mmrSize 65 1 mmrSize

/-- The search ends without an overflow, with the leaf count of the size if it lies between the
bounds. -/
structure Finds (size fuel lo hi : ℕ) : Prop where
  checked : searchChecked size fuel lo hi = some (searchLeafCount size fuel lo hi)
  found : ∀ n, lo ≤ n → n ≤ hi → nodeCount n = size → searchLeafCount size fuel lo hi = some n

section

variable {size fuel lo hi : ℕ}

lemma Finds.empty (h : hi < lo) : Finds size (fuel + 1) lo hi := by
  refine ⟨?_, fun n _ _ _ => by omega⟩
  rw [searchChecked, searchLeafCount, if_pos h, if_pos h]

/-- A probe in range leaves one side of the interval, the upper one only if its size, up to 64
below its double, is too small. -/
lemma Finds.probe (hle : lo ≤ hi) (hmid : lo + (hi - lo) / 2 < 2 ^ 63)
    (hleft : Finds size fuel lo (lo + (hi - lo) / 2 - 1))
    (hright : 2 * (lo + (hi - lo) / 2) < size + 64 →
      Finds size fuel (lo + (hi - lo) / 2 + 1) hi) : Finds size (fuel + 1) lo hi := by
  suffices h : searchChecked size (fuel + 1) lo hi = some (searchLeafCount size (fuel + 1) lo hi) ∧
      ∀ n, lo ≤ n → n ≤ hi → nodeCount n = size →
        searchLeafCount size (fuel + 1) lo hi = some n from ⟨h.1, h.2⟩
  rw [searchChecked, searchLeafCount, if_neg hle.not_gt, if_neg hle.not_gt]
  generalize lo + (hi - lo) / 2 = mid at *
  have hcount := nodeCount_add_ones mid
  have hones : countOnes mid ≤ 64 := length_filter_le _ _
  have hwrap := size_eq (x := mid) (by omega)
  rw [countOnes_eq (by omega)] at hones
  rw [Nat.mod_eq_of_lt (a := nodeCount _) (by omega)] at hwrap
  dsimp only
  rw [hwrap, Nat.mod_eq_of_lt (a := mid + 1) (by omega), countOnes_eq (by omega),
    if_neg (by omega), show 2 * mid - ones mid = nodeCount mid from rfl]
  rcases lt_trichotomy (nodeCount mid) size with hless | rfl | hmore
  · have hfinds := hright (by omega)
    simp only [if_neg hless.ne, if_pos hless]
    exact ⟨hfinds.checked, fun n _ hn hsize =>
      hfinds.found n (nodeCount_strictMono.lt_iff_lt.mp (by omega)) hn hsize⟩
  · simp only [if_true, Option.some_inj, true_and]
    exact fun n _ _ hsize => nodeCount_strictMono.injective hsize.symm
  · have hpos : mid ≠ 0 := by
      rintro rfl
      simp [nodeCount] at hmore
    simp only [if_neg hmore.ne', if_neg hmore.not_gt, if_neg hpos]
    refine ⟨hleft.checked, fun n hn _ hsize => ?_⟩
    have hlt : n < mid := nodeCount_strictMono.lt_iff_lt.mp (by omega)
    exact hleft.found n hn (by omega) hsize

/-- Below half of the words the search is exact. -/
lemma finds (hlo : 0 < lo) (hword : hi < 2 ^ 63) (hfuel : hi + 1 - lo < 2 ^ fuel) :
    Finds size (fuel + 1) lo hi := by
  induction fuel generalizing lo hi with
  | zero => exact .empty (by omega)
  | succ fuel ih =>
    rcases lt_or_ge hi lo with hempty | hle
    · exact .empty hempty
    · exact .probe hle (by omega) (ih hlo (by omega) (by omega)) fun _ =>
        ih (by omega) hword (by omega)

/-- What the search finds has the given size. -/
lemma searchLeafCount_some {x : ℕ} (hhi : hi ≤ size)
    (h : searchLeafCount size fuel lo hi = some x) :
    x ≤ size ∧ (2 * x + 2 ^ 64 - countOnes x) % 2 ^ 64 = size := by
  induction fuel generalizing lo hi with
  | zero => cases h
  | succ fuel ih =>
    rw [searchLeafCount] at h
    dsimp only at h
    split_ifs at h with hempty heq hless hzero
    · cases h
      exact ⟨by omega, heq⟩
    · exact ih hhi h
    · exact ih (by omega) h

lemma nodeCount_of_leafCountFromMmrSize {x : ℕ} (hsize : size < 2 ^ 64)
    (h : leafCountFromMmrSize size = some x) : nodeCount x = size := by
  unfold leafCountFromMmrSize at h
  split_ifs at h with hzero
  · cases h
    exact hzero.symm
  · obtain ⟨hle, hword⟩ := searchLeafCount_some le_rfl h
    have hcount := nodeCount_add_ones x
    rw [size_eq (by omega)] at hword
    -- twice the word would need a leaf count above the size
    rwa [Nat.mod_eq_of_lt (by omega)] at hword

end

lemma leafCountFromMmrSize_nodeCount (hn : n < 2 ^ 62) :
    leafCountFromMmrSize (nodeCount n) = some n := by
  have hcount := nodeCount_add_ones n
  have hones := ones_le n
  unfold leafCountFromMmrSize
  split_ifs with hzero
  · rw [show n = 0 by omega]
  · exact (finds one_pos (by omega) (by omega)).found n (by omega) (by omega) rfl

/-- A size belongs to one leaf count only. -/
lemma eq_of_leafCountFromMmrSize {x : ℕ} (hn : nodeCount n < 2 ^ 64)
    (h : leafCountFromMmrSize (nodeCount n) = some x) : x = n :=
  nodeCount_strictMono.injective (nodeCount_of_leafCountFromMmrSize hn h)

/-- The second probe is in range, and too large if the first one is not small. -/
lemma finds_of_lt {size : ℕ} (hlt : size < 12297829382473034410) : Finds size 65 1 size := by
  rcases lt_or_ge size (2 ^ 63) with hword | hword
  · exact finds one_pos hword (by omega)
  · refine .probe (by omega) (by omega) (finds one_pos (by omega) (by omega)) fun _ => ?_
    refine .probe (by omega) (by omega) (finds (by omega) (by omega) (by omega)) fun hless => ?_
    omega

lemma leafCountChecked_of_ge {size : ℕ} (hge : 12297829382473034410 ≤ size)
    (hsize : size < 2 ^ 64) :
    leafCountChecked size = none := by
  rw [leafCountChecked, if_neg (by omega), searchChecked, if_neg (by omega)]
  dsimp only
  rcases le_or_gt (2 ^ 64) (2 * (1 + (size - 1) / 2)) with hover | hword
  · rw [if_pos (.inl hover)]
  · obtain ⟨r, hr⟩ : ∃ r, 1 + (size - 1) / 2 = 2 ^ 62 * 1 + r :=
      ⟨1 + (size - 1) / 2 - 2 ^ 62, by omega⟩
    -- the first probe is not a power of two, so its size is too small
    have hones : ones (1 + (size - 1) / 2) = 1 + ones r := by
      rw [hr, ones_add (by omega)]
      rfl
    have hpos : ones r ≠ 0 := by
      intro hzero
      have hsum := r.sum_map_two_pow_bitIndices
      rw [length_eq_zero_iff.mp hzero] at hsum
      simp only [map_nil, sum_nil] at hsum
      omega
    have hcount := nodeCount_add_ones (1 + (size - 1) / 2)
    rw [countOnes_eq (by omega), if_neg (by omega), if_neg (by omega), if_pos (by omega),
      searchChecked, if_neg (by omega)]
    dsimp only
    rw [if_pos (.inl (by omega))]

/-- The checked search gives the leaf count of every size, or none if there is none, exactly below
the limit. -/
theorem leafCountFromMmrSize_exact_iff {size : ℕ} (hsize : size < 2 ^ 64) :
    (leafCountChecked size = some (leafCountFromMmrSize size) ∧
        ∀ n, leafCountFromMmrSize size = some n ↔ 2 * n - ones n = size) ↔
      size < 12297829382473034410 := by
  constructor
  · rintro ⟨hchecked, -⟩
    by_contra hge
    rw [leafCountChecked_of_ge (not_lt.mp hge) hsize] at hchecked
    cases hchecked
  · intro hlt
    have hfound : leafCountChecked size = some (leafCountFromMmrSize size) ∧
        ∀ n, nodeCount n = size → leafCountFromMmrSize size = some n := by
      unfold leafCountChecked leafCountFromMmrSize
      split_ifs with hzero
      · subst hzero
        exact ⟨rfl, fun n hn => congrArg some (nodeCount_strictMono.injective hn.symm)⟩
      · have hfinds := finds_of_lt hlt
        refine ⟨hfinds.checked, fun n hn => hfinds.found n ?_ ?_ hn⟩
        · rcases n with - | n
          · exact absurd hn.symm hzero
          · omega
        · have := nodeCount_add_ones n
          have := ones_le n
          omega
    exact ⟨hfound.1, fun n => ⟨nodeCount_of_leafCountFromMmrSize hsize, hfound.2 n⟩⟩

theorem leafCountFromMmrSize_exact_four :
    4 < 2 ^ 64 ∧ leafCountChecked 4 = some (leafCountFromMmrSize 4) :=
  ⟨by decide, ((leafCountFromMmrSize_exact_iff (by decide)).mpr (by decide)).1⟩

/-- The nodes of `2 ^ 63 - 1` leaves fit in a word, but the second probe overflows and the search
goes the wrong way. -/
theorem leafCountFromMmrSize_misses :
    2 * (2 ^ 63 - 1) - ones (2 ^ 63 - 1) = 2 ^ 64 - 65 ∧
      leafCountFromMmrSize (2 ^ 64 - 65) = none ∧ leafCountChecked (2 ^ 64 - 65) = none := by
  refine ⟨?_, by decide +kernel, by decide +kernel⟩
  rw [← countOnes_eq (by decide)]
  decide +kernel

/-! ### Verifying -/

/-- What the verifier checks. -/
lemma verify_eq_true [DecidableEq H] {zero : H} {p : MMRProof H} {h root : H} :
    verify hashPair zero p h root = true ↔
      ∃ n t, leafCountFromMmrSize p.mmrSize.toNat = some n ∧ p.leafIndex.toNat < n ∧
        p.peakHashes.length + 1 = countOnes n ∧
        (peakHeightsFromLeafCount n)[p.peakIndex.toNat]? = some t ∧ p.siblings.length = t ∧
        p.peakIndex.toNat ≤ p.peakHashes.length ∧
        bag hashPair zero (withPeak p.peakHashes p.peakIndex.toNat
          (climb hashPair p.leafIndex.toNat 0 p.siblings h)) = root := by
  unfold verify
  cases hcount : leafCountFromMmrSize p.mmrSize.toNat with
  | none => simp
  | some n =>
    cases hheight : (peakHeightsFromLeafCount n)[p.peakIndex.toNat]? with
    | none => simp [hheight]
    | some t =>
      simp only [hheight]
      constructor
      · intro hverify
        split_ifs at hverify with hindex hpeaks hsiblings hplace
        exact ⟨n, t, rfl, not_le.mp hindex, not_not.mp hpeaks, hheight, not_not.mp hsiblings,
          not_lt.mp hplace, of_decide_eq_true hverify⟩
      · rintro ⟨n', t', hn, hindex, hpeaks, ht, hsiblings, hplace, hroot⟩
        cases hn
        obtain rfl := Option.some.inj (hheight.symm.trans ht)
        rw [if_neg (not_le.mpr hindex), if_neg (not_not.mpr hpeaks), if_neg (not_not.mpr hsiblings),
          if_neg (not_lt.mpr hplace), decide_eq_true hroot]

/-! ### Completeness -/

/-- The proof of a leaf names the peak above it, with the peaks of the digits before and after. -/
lemma Represents.prove_eq (h : Represents hashPair leaves m) (hword : m.leafCount < 2 ^ 62) {i : ℕ}
    (hi : i < m.leafCount) :
    ∃ t before after, m.leafCount.bitIndices.reverse = before ++ t :: after ∧
      i >>> t = peak m.leafCount t ∧ m.prove (.ofNat i) = some
        { leafIndex := .ofNat i
          mmrSize := .ofNat m.nodes.length
          siblings := path hashPair leaves i 0 t
          peakHashes := before.map (fun t => block hashPair leaves t (peak m.leafCount t)) ++
            after.map fun t => block hashPair leaves t (peak m.leafCount t)
          peakIndex := .ofNat before.length } := by
  have hindex : (UInt64.ofNat i).toNat = i := by
    exact Nat.mod_eq_of_lt (by omega)
  have hpos : leafIndexToNodePos i = position 0 (i >>> 0) := by
    rw [leafIndexToNodePos, countOnes_eq (by omega), Nat.shiftRight_zero, position_zero, nodeCount]
  have hleaf : 2 ^ 0 * ((i >>> 0) + 1) ≤ m.leafCount := by
    rw [pow_zero, one_mul]
    exact hi
  obtain ⟨t, hloop, hcomplete, hincomplete⟩ := siblingLoop_spec h i 64 hleaf (by omega) []
  rw [zero_add] at hloop hcomplete hincomplete
  obtain ⟨hbit, hpeak⟩ := eq_peak hcomplete hincomplete
  obtain ⟨before, after, hsplit⟩ := append_of_mem
    (mem_reverse.mpr (Nat.mem_bitIndices.mpr hbit))
  have hnodup : (before ++ t :: after).Nodup := by
    rw [← hsplit]
    exact nodup_reverse.mpr Nat.bitIndices_nodup
  have hother : ∀ s ∈ before ++ after, position s (peak m.leafCount s) ≠ position t (i >>> t) ∧
      m.nodes[position s (peak m.leafCount s)]? =
        some (block hashPair leaves s (peak m.leafCount s)) := by
    intro s hs
    have hmem : s ∈ m.leafCount.bitIndices := by
      rw [← mem_reverse, hsplit]
      simp only [mem_append, mem_cons] at hs ⊢
      tauto
    refine ⟨?_, h.getElem?_peak hmem⟩
    rw [hpeak]
    have hne : s ≠ t := by
      rintro rfl
      exact (nodup_middle.mp hnodup).notMem hs
    rcases Nat.lt_or_gt_of_ne hne with hlt | hlt
    · exact (position_peak_lt hlt (Nat.mem_bitIndices.mp hmem) hbit).ne'
    · exact (position_peak_lt hlt hbit (Nat.mem_bitIndices.mp hmem)).ne
  have hpeaks := otherPeaks_eq (fun s hs => hother s (mem_append_left _ hs))
    fun s hs => hother s (mem_append_right _ hs)
  have hnode := h.block 0 _ hleaf
  refine ⟨t, before, after, hsplit, hpeak, ?_⟩
  rw [prove, hindex, if_neg (not_le.mpr hi), hpos,
    if_neg (not_le.mpr (List.getElem?_eq_some_iff.mp hnode).1), hloop, Option.bind_some,
    peakPositions_eq, hsplit, map_append, map_cons, ← hpeak]
  dsimp only
  rw [hpeaks]
  rfl

/-- MMR completeness. Fewer than `2 ^ 62` leaves can be appended, and every one of them has a proof
that the verifier accepts. -/
theorem mmr_complete [DecidableEq H] (hashPair : H → H → H) (zero : H) (leaves : List H)
    (hlength : leaves.length < 2 ^ 62) :
    ∃ m root, ofLeaves hashPair leaves = some m ∧ m.root hashPair zero = some root ∧
      ∀ i a, leaves[i]? = some a →
        ∃ p, m.prove (.ofNat i) = some p ∧ verify hashPair zero p a root = true := by
  obtain ⟨hspec, hsome⟩ := ofLeaves_spec hashPair zero leaves
  obtain ⟨m, hm⟩ := hsome (by omega)
  obtain ⟨hrep, hcount⟩ := hspec m hm
  refine ⟨m, _, hm, hrep.root_eq zero, fun i a ha => ?_⟩
  have hi : i < m.leafCount := by
    rw [hcount]
    exact (List.getElem?_eq_some_iff.mp ha).1
  obtain ⟨t, before, after, hsplit, hpeak, hprove⟩ := hrep.prove_eq (by omega) hi
  have hcard : before.length + after.length + 1 = ones m.leafCount := by
    have hdigits := congrArg List.length hsplit
    rw [length_reverse, length_append, length_cons] at hdigits
    rw [ones, hdigits, add_assoc]
  have hones := ones_le m.leafCount
  have hsize : (UInt64.ofNat m.nodes.length).toNat = nodeCount m.leafCount := by
    have := nodeCount_add_ones m.leafCount
    rw [hrep.length]
    exact Nat.mod_eq_of_lt (by omega)
  have hindex : (UInt64.ofNat i).toNat = i := by
    exact Nat.mod_eq_of_lt (by omega)
  have hplace : (UInt64.ofNat before.length).toNat = before.length := by
    exact Nat.mod_eq_of_lt (by omega)
  have hleaf : a = block hashPair (leafAt zero leaves) 0 (i >>> 0) := by
    rw [block, Nat.shiftRight_zero, leafAt, getD_eq_getElem?_getD, ha, Option.getD_some]
  refine ⟨_, hprove, verify_eq_true.mpr ⟨m.leafCount, t, ?_, ?_, ?_, ?_, ?_, ?_, ?_⟩⟩
  · rw [hsize, leafCountFromMmrSize_nodeCount (by omega)]
  · rwa [hindex]
  · rw [countOnes_eq (by omega), ← hcard]
    simp
  · rw [hplace, peakHeightsFromLeafCount_eq (by omega), hsplit]
    simp
  · exact length_path i 0 t
  · rw [hplace]
    simp
  · rw [hplace, hindex, hleaf, climb_path, zero_add, hpeak, withPeak_eq (by simp), peaksOf, hsplit]
    simp

/-- Hashes without collisions. -/
inductive HashTerm
  | leaf (n : ℕ)
  | node (left right : HashTerm)
deriving DecidableEq

lemma node_injective : Function.Injective2 HashTerm.node := by
  intro a b c d h
  exact HashTerm.node.inj h

def threeLeaves : List HashTerm := [.leaf 0, .leaf 1, .leaf 2]

theorem mmr_complete_three :
    ∃ m root, ofLeaves HashTerm.node threeLeaves = some m ∧
      m.root HashTerm.node (.leaf 0) = some root ∧ ∀ i a, threeLeaves[i]? = some a →
        ∃ p, m.prove (.ofNat i) = some p ∧ verify HashTerm.node (.leaf 0) p a root = true :=
  mmr_complete HashTerm.node (.leaf 0) threeLeaves (by decide)

/-! ### Binding -/

/-- The leaf index of a proof is below the peak that the proof names. -/
def UnderPeak (p : MMRProof H) (leafCount : ℕ) : Prop :=
  ∀ t ∈ (peakHeightsFromLeafCount leafCount)[p.peakIndex.toNat]?,
    p.leafIndex.toNat >>> t = peak leafCount t

/-- Leaf of the peak at the given index at the offset the low digits of the leaf index tell. -/
def leafUnder (leaves : List H) (p : MMRProof H) : Option H :=
  (peakHeightsFromLeafCount leaves.length)[p.peakIndex.toNat]?.bind fun t =>
    leaves[2 ^ t * peak leaves.length t + p.leafIndex.toNat % 2 ^ t]?

/-- An accepted proof is one of the leaf below its peak. -/
lemma leafUnder_of_verify [DecidableEq H] (hinj : Function.Injective2 hashPair) {zero : H}
    {leaves : List H} (hm : ofLeaves hashPair leaves = some m) {root : H}
    (hroot : m.root hashPair zero = some root) {p : MMRProof H}
    (hsize : p.mmrSize.toNat = m.nodes.length) {h : H}
    (hverify : verify hashPair zero p h root = true) : leafUnder leaves p = some h := by
  obtain ⟨hrep, hcount⟩ := (ofLeaves_spec hashPair zero leaves).1 m hm
  obtain ⟨n, t, hn, hindex, hpeaks, ht, hsiblings, hplace, hbag⟩ := verify_eq_true.mp hverify
  have hword := p.mmrSize.toNat_lt
  rw [hsize, hrep.length] at hword hn
  obtain rfl := eq_of_leafCountFromMmrSize hword hn
  have hlt : m.leafCount < 2 ^ 64 := by
    have := nodeCount_add_ones m.leafCount
    have := ones_le m.leafCount
    omega
  -- the peaks are bound to the root, so the path of the proof ends in the peak it names
  rw [hrep.root_eq, Option.some.injEq] at hroot
  rw [peakHeightsFromLeafCount_eq hlt] at ht
  rw [countOnes_eq hlt] at hpeaks
  rw [← hroot] at hbag
  have hlists := bag_injective hinj zero (by
    rw [withPeak_eq hplace, peaksOf, length_map, length_reverse]
    simp only [length_append, length_take, length_cons, length_drop]
    unfold ones at hpeaks
    omega) hbag
  have hpeak : climb hashPair p.leafIndex.toNat 0 p.siblings h =
      block hashPair (leafAt zero leaves) (0 + p.siblings.length) (peak m.leafCount t) := by
    have hget := congrArg (·[p.peakIndex.toNat]?) hlists
    have hlen : (p.peakHashes.take p.peakIndex.toNat).length = p.peakIndex.toNat :=
      length_take_of_le hplace
    simp only [withPeak_eq hplace, peaksOf, getElem?_map, ht, Option.map_some] at hget
    rw [getElem?_append_right hlen.le, hlen, Nat.sub_self, getElem?_cons_zero,
      Option.some.injEq] at hget
    rw [hget, zero_add, hsiblings]
  have hbit : m.leafCount.testBit t = true :=
    Nat.mem_bitIndices.mp (mem_reverse.mp (mem_of_getElem? ht))
  have hleaf := eq_block_of_climb (P := Set.univ) (fun x _ y _ h => Prod.ext_iff.mpr (hinj h))
    (fun _ _ => trivial) (fun _ _ _ _ => trivial) hpeak
  rw [hsiblings, block, Nat.shiftRight_zero] at hleaf
  have hbelow : 2 ^ t * peak m.leafCount t + p.leafIndex.toNat % 2 ^ t < leaves.length := by
    have hend : 2 ^ t * (peak m.leafCount t + 1) ≤ m.leafCount := by
      rw [← shiftRight_of_testBit hbit, Nat.shiftRight_eq_div_pow]
      exact Nat.mul_div_le _ _
    rw [mul_add] at hend
    omega
  rw [leafUnder, ← hcount, peakHeightsFromLeafCount_eq hlt, ht, Option.bind_some, hleaf, leafAt,
    getD_eq_getElem?_getD, getElem?_eq_getElem hbelow, Option.getD_some]

/-- MMR position binding. An accepted proof is one of the leaf at its leaf index if that index is
below the peak it names; and only then, if no leaf was appended twice. -/
theorem mmr_binding_iff [DecidableEq H] (hashPair : H → H → H) (zero : H)
    (hinj : Function.Injective2 hashPair) (leaves : List H) (m : MerkleMountainRange H)
    (hm : ofLeaves hashPair leaves = some m) (root : H) (hroot : m.root hashPair zero = some root)
    (p : MMRProof H) (hsize : p.mmrSize.toNat = m.nodes.length) (h : H)
    (hverify : verify hashPair zero p h root = true) :
    (UnderPeak p leaves.length → leaves[p.leafIndex.toNat]? = some h) ∧
      (leaves.Nodup → leaves[p.leafIndex.toNat]? = some h → UnderPeak p leaves.length) := by
  have hleaf := leafUnder_of_verify hinj hm hroot hsize hverify
  obtain ⟨t, ht, hplace⟩ := Option.bind_eq_some_iff.mp hleaf
  unfold UnderPeak
  rw [ht]
  have hsplit := Nat.div_add_mod p.leafIndex.toNat (2 ^ t)
  rw [← Nat.shiftRight_eq_div_pow] at hsplit
  refine ⟨fun hunder => ?_, fun hnodup hindex => ?_⟩
  · rw [← hunder t rfl, hsplit] at hplace
    exact hplace
  · intro t' ht'
    cases ht'
    obtain ⟨hlt, hget⟩ := List.getElem?_eq_some_iff.mp hindex
    obtain ⟨hlt', hget'⟩ := List.getElem?_eq_some_iff.mp hplace
    have hsame := (hnodup.getElem_inj_iff).mp (hget.trans hget'.symm)
    have hcancel : 2 ^ t * (p.leafIndex.toNat >>> t) = 2 ^ t * peak leaves.length t := by omega
    exact Nat.eq_of_mul_eq_mul_left (Nat.two_pow_pos t) hcancel

def threeNodes : MerkleMountainRange HashTerm :=
  ⟨[.leaf 0, .leaf 1, .node (.leaf 0) (.leaf 1), .leaf 2], 3⟩

/-- A proof of the last of three leaves. -/
theorem mmr_binding_last :
    verify HashTerm.node (.leaf 0) ⟨2, 4, [], [.node (.leaf 0) (.leaf 1)], 1⟩ (.leaf 2)
        (.node (.node (.leaf 0) (.leaf 1)) (.leaf 2)) = true ∧
      threeLeaves[2]? = some (.leaf 2) := by
  have hunder : UnderPeak ⟨2, 4, [], [HashTerm.node (.leaf 0) (.leaf 1)], 1⟩
      threeLeaves.length := by
    intro t ht
    obtain rfl : 0 = t := Option.some.inj ht
    rfl
  refine ⟨by decide +kernel, ?_⟩
  exact (mmr_binding_iff HashTerm.node (.leaf 0) node_injective threeLeaves threeNodes
    (by decide +kernel) (.node (.node (.leaf 0) (.leaf 1)) (.leaf 2)) (by decide +kernel)
    ⟨2, 4, [], [.node (.leaf 0) (.leaf 1)], 1⟩ (by decide +kernel) (.leaf 2)
    (by decide +kernel)).1 hunder

/-- The leaf index of a proof can be another than that of its leaf: with index 2 and the first peak,
the path leads to leaf 0. -/
theorem mmr_index_forged :
    ofLeaves HashTerm.node threeLeaves = some threeNodes ∧ threeNodes.root HashTerm.node (.leaf 0) =
        some (.node (.node (.leaf 0) (.leaf 1)) (.leaf 2)) ∧
      verify HashTerm.node (.leaf 0) ⟨2, 4, [.leaf 1], [.leaf 2], 0⟩ (.leaf 0)
        (.node (.node (.leaf 0) (.leaf 1)) (.leaf 2)) = true ∧
      threeNodes.nodes.length = 4 ∧ threeLeaves[2]? ≠ some (.leaf 0) := by
  decide +kernel

end MerkleMountainRange

end EvaporChain
