import EvaporChain.Core.Codec
import EvaporChain.Core.Mountains

/-!
# Data availability sampling

A light client takes data to be available if the Merkle proofs of a few shards lead to the data
root. The verifiers check neither the length of a proof nor its index, leaves are hashed as inner
nodes are, and samples are counted however often they come.
-/

namespace EvaporChain

open Core List

/-- Hashing of byte strings `D` to hashes `H`. -/
structure Blake3 (D H : Type) where
  hash : D → H
  /-- Two hashes written one after the other. -/
  concat : H → H → D
  concat_injective : Function.Injective2 concat
  /-- Zero bytes only. -/
  zero : H

structure Shard (D H : Type) where
  data : D
  hash : H

structure ShardProof (H : Type) where
  siblings : List H
  leafIndex : ℕ
  root : H

structure SampleResponse (D H : Type) where
  shard : Shard D H
  proof : ShardProof H

structure DAProof (H : Type) where
  commitmentRoot : H
  totalShards : ℕ

inductive SamplingError
  | indexOutOfRange (index total : ℕ)
  | insufficientSamples (got need : ℕ)

inductive DAVerificationResult
  | available (samplesVerified : ℕ)
  | unavailable (valid required : ℕ)

namespace DASampler

variable {D H : Type} (b : Blake3 D H)

def hashPair (left right : H) : H := b.hash (b.concat left right)

/-- The next layer of the tree. -/
def pairUp : List H → List H
  | left :: right :: layer => hashPair b left right :: pairUp layer
  | _ => []

lemma length_pairUp_le (layer : List H) : (pairUp b layer).length ≤ layer.length := by
  fun_induction pairUp b layer with
  | case1 left right layer ih => exact Nat.succ_le_succ (ih.trans (Nat.le_succ _))
  | case2 layer => exact Nat.zero_le _

/-- Pair up until one hash is left. -/
def collapse : List H → H
  | [] => b.zero
  | [root] => root
  | left :: right :: layer => collapse (hashPair b left right :: pairUp b layer)
termination_by layer => layer.length
decreasing_by exact Nat.succ_lt_succ (Nat.lt_succ_of_le (length_pairUp_le b layer))

/-- The leaves are padded with zeros to the next power of two. -/
def merkleRoot (leaves : List H) : H :=
  collapse b (leaves ++ .replicate (2 ^ Nat.clog 2 leaves.length - leaves.length) b.zero)

/-- Pair up until one hash is left, and note the neighbour of the position in every layer. -/
def proofLoop : List H → ℕ → H × List H
  | [], _ => (b.zero, [])
  | [root], _ => (root, [])
  | left :: right :: layer, currentIndex =>
    let siblingIndex := if currentIndex % 2 = 0 then currentIndex + 1 else currentIndex - 1
    let above := proofLoop (hashPair b left right :: pairUp b layer) (currentIndex / 2)
    (above.1, (left :: right :: layer).getD siblingIndex b.zero :: above.2)
termination_by layer => layer.length
decreasing_by exact Nat.succ_lt_succ (Nat.lt_succ_of_le (length_pairUp_le b layer))

def merkleProof (leaves : List H) (index : ℕ) : H × List H :=
  proofLoop b (leaves ++ .replicate (2 ^ Nat.clog 2 leaves.length - leaves.length) b.zero) index

def generateProof (shards : List (Shard D H)) (shardIndex : ℕ) :
    Except SamplingError (ShardProof H) :=
  if shards.length ≤ shardIndex then .error (.indexOutOfRange shardIndex shards.length)
  else
    let (root, siblings) := merkleProof b (shards.map (·.hash)) shardIndex
    .ok ⟨siblings, shardIndex, root⟩

variable [DecidableEq H]

def verifyProof (shard : Shard D H) (proof : ShardProof H) : Bool :=
  climb (hashPair b) proof.leafIndex 0 proof.siblings shard.hash = proof.root

/-- What both verifiers check of a response. -/
def validSample (root : H) (response : SampleResponse D H) : Bool :=
  b.hash response.shard.data = response.shard.hash && response.proof.root = root &&
    verifyProof b response.shard response.proof

def verifySamples (proof : DAProof H) (responses : List (SampleResponse D H)) (minSamples : ℕ) :
    Except SamplingError Bool :=
  if responses.length < minSamples then .error (.insufficientSamples responses.length minSamples)
  else .ok (responses.all (validSample b proof.commitmentRoot))

end DASampler

/-- Samples that make a light client confident. -/
def minDaSamples : ℕ := 4

open DASampler

def DASVerifier.verifySamples {D H : Type} (b : Blake3 D H) [DecidableEq H] (dataRoot : H)
    (responses : List (SampleResponse D H)) : DAVerificationResult :=
  let validCount := responses.countP (validSample b dataRoot)
  if minDaSamples ≤ validCount then .available validCount
  else .unavailable validCount minDaSamples

/-! ### The committed tree -/

variable {D H : Type} {b : Blake3 D H} (leaves : ℕ → H)

lemma pairUp_blocks (t a n : ℕ) :
    pairUp b ((List.range' (2 * a) (2 * n)).map (block (hashPair b) leaves t)) =
      (List.range' a n).map (block (hashPair b) leaves (t + 1)) := by
  induction n generalizing a with
  | zero => rfl
  | succ n ih => rw [Nat.mul_succ, range'_succ, range'_succ, map_cons, map_cons,
      pairUp, show 2 * a + 1 + 1 = 2 * (a + 1) by ring, ih, range'_succ, map_cons, block]

lemma collapse_blocks (t d : ℕ) :
    collapse b ((List.range' 0 (2 ^ d)).map (block (hashPair b) leaves t)) =
      block (hashPair b) leaves (t + d) 0 := by
  induction d generalizing t with
  | zero => simp [collapse]
  | succ d ih =>
    obtain ⟨n, hn⟩ := Nat.exists_eq_add_of_le' (Nat.one_le_two_pow (n := d))
    have hnext := pairUp_blocks (b := b) leaves t 0 (2 ^ d)
    rw [← add_assoc, add_right_comm, ← ih, ← hnext, pow_succ', hn]
    exact collapse.eq_3 ..

/-- The walk from a position to the root passes the siblings of its path. -/
lemma proofLoop_blocks (i t d : ℕ) (hi : i >>> t < 2 ^ d) :
    proofLoop b ((List.range' 0 (2 ^ d)).map (block (hashPair b) leaves t)) (i >>> t) =
      (block (hashPair b) leaves (t + d) 0, path (hashPair b) leaves i t d) := by
  induction d generalizing t with
  | zero => simp [proofLoop, path]
  | succ d ih =>
    have hlt : (i >>> t) / 2 < 2 ^ d ∧ sibling (i >>> t) < 2 * 2 ^ d := by
      generalize i >>> t = m at hi
      unfold sibling
      split_ifs <;> omega
    have habove := ih (t + 1) (by simpa [Nat.shiftRight_succ] using hlt.1)
    have hsibling : ((List.range' 0 (2 * 2 ^ d)).map (block (hashPair b) leaves t)).getD
        (sibling (i >>> t)) b.zero = block (hashPair b) leaves t (sibling (i >>> t)) := by
      simp [hlt.2]
    obtain ⟨n, hn⟩ := Nat.exists_eq_add_of_le' (Nat.one_le_two_pow (n := d))
    rw [← pairUp_blocks, Nat.shiftRight_succ, add_right_comm, hn] at habove
    rw [path, pow_succ', ← add_assoc, ← hsibling, hn]
    obtain ⟨hroot, hsiblings⟩ := Prod.ext_iff.mp habove
    exact (proofLoop.eq_3 ..).trans (Prod.ext hroot (congrArg (_ :: ·) hsiblings))

/-- The padded leaves are the bottom of the tree over the leaves. -/
lemma padded_eq (leaves : List H) :
    leaves ++ .replicate (2 ^ Nat.clog 2 leaves.length - leaves.length) b.zero =
      (List.range' 0 (2 ^ Nat.clog 2 leaves.length)).map
        (block (hashPair b) (leaves.getD · b.zero) 0) := by
  have hle := Nat.le_pow_clog (b := 2) (by decide) leaves.length
  refine ext_getElem (by simp; omega) fun i hi _ => ?_
  by_cases h : i < leaves.length
  · simp [block, getElem_append_left h, h]
  · simp [block, getElem_append_right (not_lt.mp h), h]

/-- The root is the top of the tree over the leaves. -/
lemma merkleRoot_eq (leaves : List H) :
    merkleRoot b leaves =
      block (hashPair b) (leaves.getD · b.zero) (Nat.clog 2 leaves.length) 0 := by
  rw [merkleRoot, padded_eq, collapse_blocks, zero_add]

lemma merkleProof_eq {leaves : List H} {i : ℕ} (hi : i < leaves.length) :
    merkleProof b leaves i = (merkleRoot b leaves,
      path (hashPair b) (leaves.getD · b.zero) i 0 (Nat.clog 2 leaves.length)) := by
  have hlt := hi.trans_le (Nat.le_pow_clog (b := 2) (by decide) leaves.length)
  have hwalk := proofLoop_blocks (b := b) (leaves.getD · b.zero) i 0 _ hlt
  rw [merkleProof, padded_eq, merkleRoot_eq]
  simpa using hwalk

def treeInputs (b : Blake3 D H) (shards : List (Shard D H)) : List D :=
  let depth := Nat.clog 2 shards.length
  let node := block (hashPair b) ((shards.map (·.hash)).getD · b.zero)
  shards.map (·.data) ++ (List.range depth).flatMap fun t =>
    (List.range (2 ^ (depth - (t + 1)))).map fun m => b.concat (node t (2 * m)) (node t (2 * m + 1))

/-- What is hashed for a response. -/
def sampleInputs (b : Blake3 D H) (response : SampleResponse D H) : List D :=
  response.shard.data :: (climbPairs (hashPair b) response.proof.leafIndex 0 response.proof.siblings
    response.shard.hash).map fun x => b.concat x.1 x.2

variable [DecidableEq H] {shards : List (Shard D H)}

/-- A sample with a proof of full length and an index in range has the data of its shard. -/
lemma data_of_validSample {response : SampleResponse D H}
    (hb : CollisionFree b.hash (treeInputs b shards ++ sampleInputs b response))
    (hshards : ∀ s ∈ shards, b.hash s.data = s.hash)
    (hvalid : validSample b (merkleRoot b (shards.map (·.hash))) response = true)
    (hfull : response.proof.siblings.length = Nat.clog 2 shards.length)
    (hindex : response.proof.leafIndex < shards.length) :
    (shards[response.proof.leafIndex]?).map (·.data) = some response.shard.data := by
  simp only [validSample, verifyProof, Bool.and_eq_true, decide_eq_true_eq] at hvalid
  obtain ⟨⟨hhash, hroot⟩, hclimb⟩ := hvalid
  rw [hroot, merkleRoot_eq, length_map, ← hfull, ← zero_add (List.length _)] at hclimb
  have hleaf := eq_block_of_climb
    (P := {x | b.concat x.1 x.2 ∈ treeInputs b shards ++ sampleInputs b response}) ?_ ?_ ?_ hclimb
  · have hlt := hindex.trans_le (hfull ▸ Nat.le_pow_clog (by decide) _)
    rw [mul_zero, zero_add, Nat.shiftRight_zero, Nat.mod_eq_of_lt hlt, block,
      getD_eq_getElem _ _ (by simpa), getElem_map, ← hhash,
      ← hshards _ (getElem_mem hindex)] at hleaf
    rw [getElem?_eq_getElem hindex, Option.map_some]
    have hmem : shards[response.proof.leafIndex].data ∈ treeInputs b shards :=
      mem_append_left _ (mem_map_of_mem (getElem_mem hindex))
    exact congrArg some (hb _ (mem_append_left _ hmem) _
      (mem_append_right _ (.head _)) hleaf.symm)
  · intro x hx y hy heq
    exact Prod.ext_iff.mpr (b.concat_injective (hb _ hx _ hy heq))
  · intro x hx
    exact mem_append_right _ (mem_cons_of_mem _ (mem_map_of_mem hx))
  · intro k hk m' hm'
    rw [hfull] at hk hm'
    have hlt : m' < 2 ^ (Nat.clog 2 shards.length - (k + 1)) := by
      by_contra hle
      have hpos : 0 < m' / 2 ^ (Nat.clog 2 shards.length - (k + 1)) :=
        Nat.div_pos (not_lt.mp hle) (by positivity)
      omega
    refine mem_append_left _ (mem_append_right _ (mem_flatMap.mpr
      ⟨k, mem_range.mpr hk, mem_map.mpr ⟨m', mem_range.mpr hlt, ?_⟩⟩))
    rw [zero_add]

omit [DecidableEq H] in
lemma collisionFree_sample {responses : List (SampleResponse D H)}
    (hb : CollisionFree b.hash (treeInputs b shards ++ responses.flatMap (sampleInputs b)))
    {r : SampleResponse D H} (hr : r ∈ responses) :
    CollisionFree b.hash (treeInputs b shards ++ sampleInputs b r) :=
  hb.mono (append_subset.mpr ⟨subset_append_left _ _, fun _ hx =>
    mem_append_right _ (mem_flatMap_of_mem hr hx)⟩)

/-- Accepted samples whose proofs have full length are the committed shards exactly if their indices
are in range. -/
theorem samples_committed_iff {responses : List (SampleResponse D H)} {minSamples : ℕ}
    (hb : CollisionFree b.hash (treeInputs b shards ++ responses.flatMap (sampleInputs b)))
    (hshards : ∀ s ∈ shards, b.hash s.data = s.hash)
    (haccepted : DASampler.verifySamples b ⟨merkleRoot b (shards.map (·.hash)), shards.length⟩
      responses minSamples = .ok true)
    (hfull : ∀ r ∈ responses, r.proof.siblings.length = Nat.clog 2 shards.length) :
    (∀ r ∈ responses, r.proof.leafIndex < shards.length) ↔
      ∀ r ∈ responses, r.proof.leafIndex < shards.length ∧
        (shards[r.proof.leafIndex]?).map (·.data) = some r.shard.data := by
  unfold DASampler.verifySamples at haccepted
  split_ifs at haccepted
  have hall := all_eq_true.mp (Except.ok.inj haccepted)
  refine ⟨fun h r hr => ⟨h r hr, ?_⟩, fun h r hr => (h r hr).1⟩
  exact data_of_validSample (collisionFree_sample hb hr) hshards (hall r hr) (hfull r hr) (h r hr)

/-- Numbers as byte strings and as hashes. -/
def numbers : Blake3 ℕ ℕ :=
  ⟨Nat.succ, Nat.pair, fun _ _ _ _ h => Nat.pair_eq_pair.mp h, 0⟩

lemma collisionFree_numbers (inputs : List ℕ) : CollisionFree numbers.hash inputs :=
  fun _ _ _ _ h => Nat.succ_injective h

def fourShards : List (Shard ℕ ℕ) := [⟨0, 1⟩, ⟨1, 2⟩, ⟨2, 3⟩, ⟨3, 4⟩]

/-- Proofs of all shards. -/
def fourSamples : List (SampleResponse ℕ ℕ) :=
  [⟨⟨0, 1⟩, [2, 20], 0, 407⟩, ⟨⟨1, 2⟩, [1, 20], 1, 407⟩, ⟨⟨2, 3⟩, [4, 6], 2, 407⟩,
    ⟨⟨3, 4⟩, [3, 6], 3, 407⟩]

lemma clog_four : Nat.clog 2 4 = 2 := Nat.clog_pow 2 2 (by decide)

lemma merkleRoot_fourShards : merkleRoot numbers (fourShards.map (·.hash)) = 407 := by
  simp [fourShards, merkleRoot_eq, clog_four, block, hashPair, numbers, Nat.pair]

theorem samples_committed_iff_four :
    (∀ r ∈ fourSamples, r.proof.leafIndex < 4) ∧ ∀ r ∈ fourSamples, r.proof.leafIndex < 4 ∧
      (fourShards[r.proof.leafIndex]?).map (·.data) = some r.shard.data := by
  have hindex : ∀ r ∈ fourSamples, r.proof.leafIndex < 4 := by decide
  refine ⟨hindex, (@samples_committed_iff _ _ numbers _ fourShards fourSamples 4
    (collisionFree_numbers _) (by decide) ?_ ?_).mp hindex⟩
  · rw [merkleRoot_fourShards]
    rfl
  · simp [fourSamples, fourShards, clog_four]

/-- The concatenation of two hashes passes for the first shard, and the first shard for a fifth. -/
theorem samples_not_committed :
    merkleRoot numbers (fourShards.map (·.hash)) = 407 ∧
      DASampler.verifySamples numbers ⟨407, 4⟩ [⟨⟨406, 407⟩, [], 0, 407⟩] 1 = .ok true ∧
      (fourShards[0]?).map (·.data) ≠ some 406 ∧
      DASampler.verifySamples numbers ⟨407, 4⟩ [⟨⟨0, 1⟩, [2, 20], 4, 407⟩] 1 = .ok true ∧
      (fourShards[4]?).map (·.data) = none :=
  ⟨merkleRoot_fourShards, rfl, by decide, rfl, rfl⟩

/-- The proof of every shard leads to the committed root. -/
theorem shard_proof_complete {i : ℕ} (hi : i < shards.length) :
    ∃ proof, generateProof b shards i = .ok proof ∧
      proof.root = merkleRoot b (shards.map (·.hash)) ∧ verifyProof b shards[i] proof = true := by
  have hleaf : (shards.map (·.hash)).getD i b.zero = shards[i].hash := by simp [hi]
  have hproof := @merkleProof_eq _ _ b (shards.map (·.hash)) i (by simpa using hi)
  refine ⟨_, by rw [generateProof, if_neg (not_le.mpr hi), hproof], rfl, ?_⟩
  have hclimb := @climb_path _ (hashPair b) ((shards.map (·.hash)).getD · b.zero) i 0
    (Nat.clog 2 (shards.map (·.hash)).length)
  have hlt : i < 2 ^ Nat.clog 2 (shards.map (·.hash)).length := by
    rw [length_map]
    exact hi.trans_le (Nat.le_pow_clog (by decide) _)
  rw [zero_add, Nat.shiftRight_eq_zero i _ hlt, ← merkleRoot_eq] at hclimb
  rw [verifyProof, ← hleaf, decide_eq_true_eq]
  exact hclimb

theorem shard_proof_complete_four :
    ∃ proof, generateProof numbers fourShards 3 = .ok proof ∧
      proof.root = merkleRoot numbers (fourShards.map (·.hash)) ∧
        verifyProof numbers ⟨3, 4⟩ proof = true :=
  shard_proof_complete (show 3 < fourShards.length by decide)

end EvaporChain
