import EvaporChain.Core.SortedMerkle
import EvaporChain.Consensus.LightClient
import EvaporChain.Execution.Ledger

/-!
# Proofs of an object's state at an epoch

A proof carries the snapshot of an object at an anchor, a Merkle path, the root it leads to and the
rules of decay; the verifier computes energy and lifecycle state at the queried epoch. The root and
the rules are the prover's own: a trusted block only has to exist at the named height.
-/

namespace EvaporChain

open Core List

/-! ### Anchors -/

inductive DecayFormula
  | exponential
deriving DecidableEq

structure DecayRules where
  formula : DecayFormula
  gracePeriod : ℕ
  minHalfLife : ℕ
  maxInitialEnergy : ℕ
  version : ℕ
deriving DecidableEq

inductive ObjectLifecycleState
  | active
  | grace
  | ghost
deriving DecidableEq, Repr

structure ObjectSnapshot where
  objectId : ObjectId
  energyAtAnchor : ℕ
  halfLife : ℕ
  anchorEpoch : ℕ
  state : ObjectLifecycleState
  graceEpoch : Option ℕ
deriving DecidableEq

namespace DecayRules

def defaultRules : DecayRules := ⟨.exponential, 7, 1, u64Max, 1⟩

/-- ASCII of `decay-rules-v1`. -/
def tag : Bytes := [100, 101, 99, 97, 121, 45, 114, 117, 108, 101, 115, 45, 118, 49]

def formulaByte : DecayFormula → UInt8
  | .exponential => 0

def bytes (rules : DecayRules) : Bytes :=
  tag ++ [formulaByte rules.formula] ++ leBytes 8 rules.gracePeriod ++
    leBytes 8 rules.minHalfLife ++ leBytes 8 rules.maxInitialEnergy ++ leBytes 4 rules.version

def hash (blake3 : Bytes → Hash) (rules : DecayRules) : Hash := blake3 rules.bytes

def computeEnergy (rules : DecayRules) (initialEnergy halfLife elapsedEpochs : ℕ) : ℕ :=
  match rules.formula with
  | .exponential => energyAtEpoch initialEnergy halfLife elapsedEpochs

/-- Machine words. -/
structure Fits (rules : DecayRules) : Prop where
  gracePeriod : rules.gracePeriod < 2 ^ 64
  minHalfLife : rules.minHalfLife < 2 ^ 64
  maxInitialEnergy : rules.maxInitialEnergy < 2 ^ 64
  version : rules.version < 2 ^ 32

lemma bytes_inj {rules rules' : DecayRules} (hfits : rules.Fits) (hfits' : rules'.Fits)
    (h : rules.bytes = rules'.bytes) : rules = rules' := by
  obtain ⟨⟨⟩, grace, life, energy, version⟩ := rules
  simp only [bytes, append_assoc, append_cancel_left_eq] at h
  obtain ⟨hgrace, h₁⟩ := delimits_u64 hfits.gracePeriod hfits'.gracePeriod _ _ h
  obtain ⟨hlife, h₂⟩ := delimits_u64 hfits.minHalfLife hfits'.minHalfLife _ _ h₁
  obtain ⟨henergy, h₃⟩ := delimits_u64 hfits.maxInitialEnergy hfits'.maxInitialEnergy _ _ h₂
  have hversion := leBytes_inj hfits.version hfits'.version h₃
  simp only at hgrace hlife henergy hversion
  rw [hgrace, hlife, henergy, hversion]

end DecayRules

/-! ### Lazy evaluation -/

namespace ObjectSnapshot

variable (snapshot : ObjectSnapshot) (rules : DecayRules) (queryEpoch : ℕ)

def energyAt : ℕ :=
  if queryEpoch < snapshot.anchorEpoch then snapshot.energyAtAnchor
  else
    match snapshot.state with
    | .ghost => 0
    | .grace => 0
    | .active =>
      rules.computeEnergy snapshot.energyAtAnchor snapshot.halfLife
        (queryEpoch - snapshot.anchorEpoch)

/-- Epoch at which no energy is left, in unchecked `u64` arithmetic. -/
def epochOfZeroEnergy : ℕ :=
  if snapshot.energyAtAnchor = 0 ∨ snapshot.halfLife = 0 then snapshot.anchorEpoch
  else
    (snapshot.anchorEpoch +
      (snapshot.energyAtAnchor.log2 + 1) * snapshot.halfLife % 2 ^ 64) % 2 ^ 64

def stateAt : ObjectLifecycleState :=
  match snapshot.state with
  | .ghost => .ghost
  | .grace =>
    match snapshot.graceEpoch with
    | some graceStart =>
      if (graceStart + rules.gracePeriod) % 2 ^ 64 ≤ queryEpoch then .ghost else .grace
    | none => .grace
  | .active =>
    if snapshot.energyAt rules queryEpoch = 0 then
      if (snapshot.epochOfZeroEnergy + rules.gracePeriod) % 2 ^ 64 ≤ queryEpoch then .ghost
      else .grace
    else .active

/-- ASCII of `epoch-proof-leaf-v1`. -/
def leafTag : Bytes :=
  [101, 112, 111, 99, 104, 45, 112, 114, 111, 111, 102, 45, 108, 101, 97, 102, 45, 118, 49]

def stateByte : ObjectLifecycleState → UInt8
  | .active => 0
  | .grace => 1
  | .ghost => 2

def serialize : Bytes :=
  leafTag ++ snapshot.objectId.toList ++ leBytes 8 snapshot.energyAtAnchor ++
    leBytes 8 snapshot.halfLife ++ leBytes 8 snapshot.anchorEpoch ++ [stateByte snapshot.state] ++
    tagged (snapshot.graceEpoch.map (leBytes 8))

def leafHash (blake3 : Bytes → Hash) : Hash := blake3 snapshot.serialize

/-- Machine words. -/
structure Fits : Prop where
  energyAtAnchor : snapshot.energyAtAnchor < 2 ^ 64
  halfLife : snapshot.halfLife < 2 ^ 64
  anchorEpoch : snapshot.anchorEpoch < 2 ^ 64
  graceEpoch : ∀ epoch ∈ snapshot.graceEpoch, epoch < 2 ^ 64

variable {snapshot}

lemma stateByte_injective : Function.Injective stateByte := by
  intro s s' h
  cases s <;> cases s' <;> first | rfl | cases h

lemma serialize_inj {snapshot' : ObjectSnapshot} (hfits : snapshot.Fits) (hfits' : snapshot'.Fits)
    (h : snapshot.serialize = snapshot'.serialize) : snapshot = snapshot' := by
  obtain ⟨id, energy, life, epoch, state, grace⟩ := snapshot
  simp only [serialize, append_assoc, append_cancel_left_eq] at h
  obtain ⟨hid, h₁⟩ := delimits_hash _ _ _ _ h
  obtain ⟨henergy, h₂⟩ := delimits_u64 hfits.energyAtAnchor hfits'.energyAtAnchor _ _ h₁
  obtain ⟨hlife, h₃⟩ := delimits_u64 hfits.halfLife hfits'.halfLife _ _ h₂
  obtain ⟨hepoch, h₄⟩ := delimits_u64 hfits.anchorEpoch hfits'.anchorEpoch _ _ h₃
  simp only [cons_append, List.cons.injEq] at h₄
  have hstate := stateByte_injective h₄.1
  have hgrace := (delimits_tagged fun x hx y hy =>
    delimits_u64 (hfits.graceEpoch x hx) (hfits'.graceEpoch y hy)).eq h₄.2
  simp only at henergy hlife hepoch hgrace
  rw [hid, henergy, hlife, hepoch, hstate, hgrace]

/-- A leaf is longer than a pair of digests. -/
lemma length_serialize (snapshot : ObjectSnapshot) : 64 < snapshot.serialize.length := by
  simp only [serialize, leafTag, length_append, length_cons,
    leBytes_length, List.Vector.toList_length]
  omega

end ObjectSnapshot

/-! ### Proofs -/

/-- A claim about an object at an epoch. -/
structure EpochStateProof where
  objectId : ObjectId
  snapshot : ObjectSnapshot
  merkleProofPath : List Hash
  anchorStateRoot : Hash
  anchorEpoch : ℕ
  decayRulesHash : Hash
  decayRules : DecayRules
  queryEpoch : ℕ
  commitmentBlockHeight : ℕ

structure EpochProofResult where
  objectId : ObjectId
  queryEpoch : ℕ
  energy : ℕ
  state : ObjectLifecycleState
  anchorEpoch : ℕ
deriving DecidableEq

inductive EpochProofError
  | queryBeforeAnchor
  | decayRulesHashMismatch
  | merkleProofInvalid
  | objectIdMismatch
  | anchorEpochMismatch
  | commitmentBlockNotTrusted
deriving DecidableEq

def LightClientVerifier.trustedStateAt (lc : LightClientVerifier) (height : ℕ) :
    Option TrustedState := lc.trustedStates.lookup height

namespace EpochStateProof

variable (blake3 : Bytes → Hash) (proof : EpochStateProof)

def verifyMerkleProof : Bool :=
  climbSorted blake3 (proof.snapshot.leafHash blake3) proof.merkleProofPath == proof.anchorStateRoot

def verify : Except EpochProofError EpochProofResult :=
  if proof.queryEpoch < proof.anchorEpoch then .error .queryBeforeAnchor
  else if proof.snapshot.objectId ≠ proof.objectId then .error .objectIdMismatch
  else if proof.snapshot.anchorEpoch ≠ proof.anchorEpoch then .error .anchorEpochMismatch
  else if proof.decayRules.hash blake3 ≠ proof.decayRulesHash then .error .decayRulesHashMismatch
  else if !proof.verifyMerkleProof blake3 then .error .merkleProofInvalid
  else
    .ok
      { objectId := proof.objectId
        queryEpoch := proof.queryEpoch
        energy := proof.snapshot.energyAt proof.decayRules proof.queryEpoch
        state := proof.snapshot.stateAt proof.decayRules proof.queryEpoch
        anchorEpoch := proof.anchorEpoch }

def verifyWithTrust (lc : LightClientVerifier) : Except EpochProofError EpochProofResult :=
  if (lc.trustedStateAt proof.commitmentBlockHeight).isNone then .error .commitmentBlockNotTrusted
  else proof.verify blake3

end EpochStateProof

/-! ### Trees of snapshots -/

/-- Leaves of a tree, padded to a power of two. -/
def padLeaves (leaves : List Hash) : List Hash :=
  leaves ++ List.replicate (2 ^ ((leaves.length - 1).log2 + 1) - leaves.length) Hash.zero

variable (blake3 : Bytes → Hash)

/-- Path and root for a leaf; a single leaf is its own root. -/
def buildProofFromLeaves (leaves : List Hash) (targetIndex : ℕ) : List Hash × Hash :=
  if leaves.length = 1 then ([], leaves.headD Hash.zero)
  else climbLevels blake3 (padLeaves leaves).length targetIndex (padLeaves leaves)

variable (snapshots : List ObjectSnapshot)

def buildMerkleProof (targetIndex : ℕ) : List Hash × Hash :=
  if snapshots = [] ∨ snapshots.length ≤ targetIndex then ([], Hash.zero)
  else buildProofFromLeaves blake3 (snapshots.map (·.leafHash blake3)) targetIndex

def anchorRoot : Hash :=
  (buildMerkleProof blake3 snapshots 0).2

/-- What is hashed to build the tree of an anchor. -/
def anchorInputs : List Bytes :=
  let leaves := padLeaves (snapshots.map (·.leafHash blake3))
  snapshots.map (·.serialize) ++ climbLevelsInputs blake3 leaves.length leaves

def EpochStateProof.hashedInputs (proof : EpochStateProof) : List Bytes :=
  proof.decayRules.bytes :: proof.snapshot.serialize ::
    climbInputs blake3 (proof.snapshot.leafHash blake3) proof.merkleProofPath

variable {blake3 : Bytes → Hash} {snapshots : List ObjectSnapshot}

/-- The root is a digest of the tree. -/
lemma treeDigest_anchorRoot :
    TreeDigest blake3 (snapshots.map (·.leafHash blake3)) (anchorInputs blake3 snapshots)
      (anchorRoot blake3 snapshots) := by
  unfold anchorRoot buildMerkleProof
  split_ifs with hempty
  · exact .pad
  unfold buildProofFromLeaves
  split_ifs with hone
  · obtain ⟨x, hx⟩ := List.length_eq_one_iff.mp hone
    rw [hx]
    exact .leaf (.head _)
  · refine treeDigest_root (fun x hx => ?_) (subset_append_right _ _)
    rcases List.mem_append.mp hx with hx | hx
    · exact .leaf hx
    · rw [eq_of_mem_replicate hx]
      exact .pad

namespace EpochStateProof

variable {proof : EpochStateProof} {result : EpochProofResult}

/-- What an accepted proof has passed. -/
lemma verify_ok (h : proof.verify blake3 = .ok result) :
    proof.snapshot.objectId = proof.objectId ∧ proof.decayRules.hash blake3 = proof.decayRulesHash ∧
      climbSorted blake3 (proof.snapshot.leafHash blake3) proof.merkleProofPath =
        proof.anchorStateRoot ∧
      result.energy = proof.snapshot.energyAt proof.decayRules proof.queryEpoch ∧
      result.state = proof.snapshot.stateAt proof.decayRules proof.queryEpoch := by
  unfold verify at h
  split_ifs at h with hbefore hid hepoch hrules hpath
  cases h
  simp only [verifyMerkleProof, Bool.not_eq_true', Bool.not_eq_false, beq_iff_eq] at hpath
  exact ⟨not_not.mp hid, not_not.mp hrules, hpath, rfl, rfl⟩

lemma verifyWithTrust_ok {lc : LightClientVerifier}
    (h : proof.verifyWithTrust blake3 lc = .ok result) : proof.verify blake3 = .ok result := by
  unfold verifyWithTrust at h
  split_ifs at h
  exact h

/-- A proof against the root of an anchor's tree shows a snapshot of that tree. -/
lemma snapshot_mem (hfits : ∀ s ∈ snapshots, s.Fits) (hfit : proof.snapshot.Fits)
    (hfree : CollisionFree blake3 (anchorInputs blake3 snapshots ++ proof.hashedInputs blake3))
    (hzero : ∀ x ∈ proof.hashedInputs blake3, blake3 x ≠ Hash.zero)
    (hroot : proof.anchorStateRoot = anchorRoot blake3 snapshots)
    (h : proof.verify blake3 = .ok result) : proof.snapshot ∈ snapshots := by
  obtain ⟨-, -, hclimb, -, -⟩ := verify_ok h
  have htree {x : Bytes} (hx : x ∈ anchorInputs blake3 snapshots) :
      x ∈ anchorInputs blake3 snapshots ++ proof.hashedInputs blake3 := mem_append_left _ hx
  have hproof {x : Bytes} (hx : x ∈ proof.hashedInputs blake3) :
      x ∈ anchorInputs blake3 snapshots ++ proof.hashedInputs blake3 := mem_append_right _ hx
  have hpath {x : Bytes} (hx : x ∈ climbInputs blake3 (proof.snapshot.leafHash blake3)
      proof.merkleProofPath) : x ∈ proof.hashedInputs blake3 :=
    .tail _ (.tail _ hx)
  have hself : proof.snapshot.serialize ∈ proof.hashedInputs blake3 :=
    .tail _ (.head _)
  have hleaf {s : ObjectSnapshot} (hs : s ∈ snapshots) :
      s.serialize ∈ anchorInputs blake3 snapshots :=
    mem_append_left _ (mem_map_of_mem hs)
  -- nothing on the path is a leaf: leaves are longer
  have hleaves : ∀ x ∈ climbInputs blake3 (proof.snapshot.leafHash blake3) proof.merkleProofPath,
      blake3 x ∉ snapshots.map (·.leafHash blake3) := by
    intro x hx hmem
    obtain ⟨s, hs, heq⟩ := List.mem_map.mp hmem
    have hserialize := hfree _ (htree (hleaf hs)) _ (hproof (hpath hx)) heq
    have hlength := s.length_serialize
    rw [hserialize, length_of_mem_climbInputs blake3 hx] at hlength
    exact absurd hlength (lt_irrefl _)
  have hstart : TreeDigest blake3 (snapshots.map (·.leafHash blake3))
      (anchorInputs blake3 snapshots) (proof.snapshot.leafHash blake3) := by
    refine treeDigest_of_climb (fun x hx y hy => hfree x (hproof (hpath hx)) y (htree hy)) hleaves
      (fun x hx => hzero x (hpath hx)) ?_
    rw [hclimb, hroot]
    exact treeDigest_anchorRoot
  generalize hdigest : proof.snapshot.leafHash blake3 = digest at hstart
  cases hstart with
  | leaf hx =>
    obtain ⟨s, hs, rfl⟩ := List.mem_map.mp hx
    have hserialize := hfree _ (hproof hself) _ (htree (hleaf hs)) hdigest
    rw [ObjectSnapshot.serialize_inj hfit (hfits s hs) hserialize]
    exact hs
  | pad => exact absurd hdigest (hzero _ hself)
  | @node a b ha hb hinput =>
    have hserialize := hfree _ (hproof hself) _ (htree hinput) hdigest
    have hlength := proof.snapshot.length_serialize
    rw [hserialize, sortedPair_length] at hlength
    exact absurd hlength (lt_irrefl _)

end EpochStateProof

open EpochStateProof

/-- Accepted proofs about one object and epoch agree if they carry the root of one anchor's tree and
one hash of the rules. -/
theorem verifyWithTrust_unique (blake3 : Bytes → Hash) (lc : LightClientVerifier)
    (snapshots : List ObjectSnapshot) (proof proof' : EpochStateProof)
    (result result' : EpochProofResult) (hone : (snapshots.map (·.objectId)).Nodup)
    (hfits : ∀ s ∈ snapshots, s.Fits) (hfit : proof.snapshot.Fits ∧ proof.decayRules.Fits)
    (hfit' : proof'.snapshot.Fits ∧ proof'.decayRules.Fits)
    (hfree : CollisionFree blake3 (anchorInputs blake3 snapshots ++
      (proof.hashedInputs blake3 ++ proof'.hashedInputs blake3)))
    (hzero : ∀ x ∈ proof.hashedInputs blake3 ++ proof'.hashedInputs blake3,
      blake3 x ≠ Hash.zero) (hroot : proof.anchorStateRoot = anchorRoot blake3 snapshots)
    (hroot' : proof'.anchorStateRoot = anchorRoot blake3 snapshots)
    (hrules : proof.decayRulesHash = proof'.decayRulesHash) (hid : proof.objectId = proof'.objectId)
    (hepoch : proof.queryEpoch = proof'.queryEpoch)
    (h : proof.verifyWithTrust blake3 lc = .ok result)
    (h' : proof'.verifyWithTrust blake3 lc = .ok result') :
    result.energy = result'.energy ∧ result.state = result'.state := by
  have hok := verifyWithTrust_ok h
  have hok' := verifyWithTrust_ok h'
  obtain ⟨hobject, hhash, -, henergy, hstate⟩ := verify_ok hok
  obtain ⟨hobject', hhash', -, henergy', hstate'⟩ := verify_ok hok'
  have hmem := snapshot_mem hfits hfit.1
    (hfree.mono (append_subset.mpr ⟨subset_append_left _ _,
      subset_append_of_subset_right _ (subset_append_left _ _)⟩))
    (fun x hx => hzero x (mem_append_left _ hx)) hroot hok
  have hmem' := snapshot_mem hfits hfit'.1
    (hfree.mono (append_subset.mpr ⟨subset_append_left _ _,
      subset_append_of_subset_right _ (subset_append_right _ _)⟩))
    (fun x hx => hzero x (mem_append_right _ hx)) hroot' hok'
  have hsnapshot : proof.snapshot = proof'.snapshot :=
    inj_on_of_nodup_map hone hmem hmem' (by rw [hobject, hobject', hid])
  have hdecay : proof.decayRules = proof'.decayRules := by
    refine DecayRules.bytes_inj hfit.2 hfit'.2 (hfree _ ?_ _ ?_ ?_)
    · exact mem_append_right _ (mem_append_left _ (.head _))
    · exact mem_append_right _ (mem_append_right _ (.head _))
    · exact hhash.trans (hrules.trans hhash'.symm)
  rw [henergy, henergy', hstate, hstate', hsnapshot, hdecay, hepoch]
  exact ⟨rfl, rfl⟩

def twoSnapshots : List ObjectSnapshot :=
  [⟨Hash.zero, 100, 10, 0, .active, none⟩, ⟨List.Vector.replicate 32 1, 5, 10, 0, .active, none⟩]

/-- A hash of the length and one byte, enough for a small tree. -/
def smallHash (bytes : Bytes) : Hash :=
  List.Vector.replicate 32 (UInt8.ofNat bytes.length + bytes.getD 19 0)

/-- The proof of the first object at epoch 10, with the block of its commitment. -/
def firstProof (commitmentBlockHeight : ℕ) : EpochStateProof where
  objectId := Hash.zero
  snapshot := ⟨Hash.zero, 100, 10, 0, .active, none⟩
  merkleProofPath := (buildMerkleProof smallHash twoSnapshots 0).1
  anchorStateRoot := anchorRoot smallHash twoSnapshots
  anchorEpoch := 0
  decayRulesHash := DecayRules.defaultRules.hash smallHash
  decayRules := .defaultRules
  queryEpoch := 10
  commitmentBlockHeight := commitmentBlockHeight

/-- A client that trusts the block at height 1. -/
def clientAtOne : LightClientVerifier := .new (LightClientVerifier.soleHeader 1 1 [1]) 0 .empty

/-- It trusts the next block, too. -/
def clientAtTwo : LightClientVerifier :=
  clientAtOne.addTrusted (LightClientVerifier.soleHeader 2 1 [1]) 0

theorem verifyWithTrust_unique_firstProof :
    ∃ result result', (firstProof 1).verifyWithTrust smallHash clientAtTwo = .ok result ∧
      (firstProof 2).verifyWithTrust smallHash clientAtTwo = .ok result' ∧
      result.energy = result'.energy ∧ result.state = result'.state := by
  have hok : (firstProof 1).verifyWithTrust smallHash clientAtTwo =
      .ok ⟨Hash.zero, 10, 50, .active, 0⟩ := by decide +kernel
  have hok' : (firstProof 2).verifyWithTrust smallHash clientAtTwo =
      .ok ⟨Hash.zero, 10, 50, .active, 0⟩ := by decide +kernel
  have hfit (s : ObjectSnapshot) (hs : s ∈ twoSnapshots) : s.Fits := by
    simp only [twoSnapshots, mem_cons, not_mem_nil, or_false] at hs
    rcases hs with rfl | rfl <;> exact ⟨by decide, by decide, by decide, fun _ h => by cases h⟩
  have hrules : DecayRules.defaultRules.Fits := ⟨by decide, by decide, by decide, by decide⟩
  have hproof (height : ℕ) :
      (firstProof height).snapshot.Fits ∧ (firstProof height).decayRules.Fits :=
    ⟨hfit _ (.head _), hrules⟩
  exact ⟨_, _, hok, hok', verifyWithTrust_unique smallHash clientAtTwo twoSnapshots (firstProof 1)
    (firstProof 2) _ _ (by decide) hfit (hproof 1) (hproof 2) (by decide +kernel)
    (by decide +kernel) rfl rfl rfl rfl rfl hok hok'⟩

/-- A proof of any energy, against a root of the prover's own making. -/
def forgedProof (blake3 : Bytes → Hash) (energy : ℕ) : EpochStateProof where
  objectId := Hash.zero
  snapshot := ⟨Hash.zero, energy, 10, 0, .active, none⟩
  merkleProofPath := []
  anchorStateRoot := blake3 (ObjectSnapshot.serialize ⟨Hash.zero, energy, 10, 0, .active, none⟩)
  anchorEpoch := 0
  decayRulesHash := DecayRules.defaultRules.hash blake3
  decayRules := .defaultRules
  queryEpoch := 0
  commitmentBlockHeight := 1

/-- One trusted block lets a client believe two energies of one object. -/
theorem verifyWithTrust_forged :
    ∃ lc : LightClientVerifier, ∀ blake3 : Bytes → Hash,
      (forgedProof blake3 100).verifyWithTrust blake3 lc = .ok ⟨Hash.zero, 0, 100, .active, 0⟩ ∧
      (forgedProof blake3 0).verifyWithTrust blake3 lc = .ok ⟨Hash.zero, 0, 0, .grace, 0⟩ := by
  refine ⟨clientAtOne, fun blake3 => ?_⟩
  have htrusted : (clientAtOne.trustedStateAt 1).isNone = false := by decide
  have haccept (energy : ℕ) : (forgedProof blake3 energy).verifyWithTrust blake3 clientAtOne =
      .ok ⟨Hash.zero, 0, ObjectSnapshot.energyAt ⟨Hash.zero, energy, 10, 0, .active, none⟩
          .defaultRules 0,
        ObjectSnapshot.stateAt ⟨Hash.zero, energy, 10, 0, .active, none⟩ .defaultRules 0, 0⟩ := by
    simp [verifyWithTrust, verify, forgedProof, htrusted,
      verifyMerkleProof, climbSorted, ObjectSnapshot.leafHash]
  rw [haccept, haccept]
  exact ⟨rfl, rfl⟩

end EvaporChain
