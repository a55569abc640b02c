import EvaporChain.Core.Mountains

/-!
# The Merkle mountain range of nullifiers

All nodes stand in one array in the order in which they were appended, and every operation finds
its way in it by arithmetic of its own. They agree since a node's place depends only on the leaves
below it. A proof of inclusion names a leaf and a peak independently of each other, and the
verifier does not check that the leaf is below the peak.
-/

namespace EvaporChain

open Core

def countOnes (n : ℕ) : ℕ := ((List.range 64).filter fun bit => n.testBit bit).length

/-- Inclusion proof of a leaf. Indices and sizes are 64-bit words. -/
structure MMRProof (H : Type) where
  leafIndex : UInt64
  mmrSize : UInt64
  /-- From the leaf up to its peak. -/
  siblings : List H
  /-- All peaks but the one of the leaf. -/
  peakHashes : List H
  peakIndex : UInt64
deriving DecidableEq

structure MerkleMountainRange (H : Type) where
  nodes : List H
  leafCount : ℕ
deriving DecidableEq

namespace MerkleMountainRange

variable {H : Type} (hashPair : H → H → H)

def new : MerkleMountainRange H := ⟨[], 0⟩

/-- Merge the last node with left siblings as long as they complete a pair. The loop ends at the
latest at the end of the word; `none` stands for an index out of range. -/
def mergeLoop (leafIndex : ℕ) : ℕ → ℕ → List H → H → Option (List H)
  | 0, _, _, _ => none
  | fuel + 1, height, nodes, current =>
    if (leafIndex >>> height) % 2 = 1 then
      let pos := nodes.length - 1
      let leftSize := 2 ^ (height + 1) - 1
      if pos < leftSize then none
      else match nodes[pos - leftSize]? with
        | none => none
        | some leftHash =>
          let current := hashPair leftHash current
          mergeLoop leafIndex fuel (height + 1) (nodes ++ [current]) current
    else some nodes

def append (m : MerkleMountainRange H) (nullifierHash : H) : Option (MerkleMountainRange H) :=
  (mergeLoop hashPair m.leafCount 64 0 (m.nodes ++ [nullifierHash]) nullifierHash).map fun nodes =>
    ⟨nodes, m.leafCount + 1⟩

def ofLeaves (leaves : List H) : Option (MerkleMountainRange H) :=
  leaves.foldlM (append hashPair) new

/-- Walk from height `fuel - 1` down to the leaves. -/
def peakLoop : ℕ → ℕ → ℕ → List ℕ
  | 0, _, _ => []
  | height + 1, remaining, offset =>
    let subtreeLeaves := 2 ^ height
    if subtreeLeaves ≤ remaining then
      let subtreeNodes := 2 * subtreeLeaves - 1
      (offset + subtreeNodes - 1) ::
        peakLoop height (remaining - subtreeLeaves) (offset + subtreeNodes)
    else peakLoop height remaining offset

variable (m : MerkleMountainRange H)

/-- Places of all peaks, from the highest set digit of the leaf count to the lowest. -/
def peakPositions : List ℕ :=
  peakLoop ((max m.leafCount 1).log2 + 1) m.leafCount 0

def peakHashes : Option (List H) := m.peakPositions.mapM (m.nodes[·]?)

/-- Hash the peaks together; an empty range has the given root. -/
def root (zero : H) (m : MerkleMountainRange H) : Option H := m.peakHashes.map (bag hashPair zero)

def leafIndexToNodePos (leafIndex : ℕ) : ℕ := 2 * leafIndex - countOnes leafIndex

/-- Collect the siblings from `pos` up as long as the parent exists. -/
def siblingLoop (nodes : List H) (leafIndex : ℕ) : ℕ → ℕ → ℕ → List H → Option (List H × ℕ)
  | 0, _, _, _ => none
  | fuel + 1, height, pos, siblings =>
    let subtreeSize := 2 ^ (height + 1) - 1
    let (siblingPos, parentPos) :=
      if (leafIndex >>> height) % 2 = 0 then (pos + subtreeSize, pos + subtreeSize + 1)
      else (pos - subtreeSize, pos + 1)
    if nodes.length ≤ parentPos then some (siblings, pos)
    else match nodes[siblingPos]? with
      | none => some (siblings, pos)
      | some sibling =>
        siblingLoop nodes leafIndex fuel (height + 1) parentPos (siblings ++ [sibling])

/-- Hashes of the peaks other than the one at `pos`, and the index of that one. -/
def otherPeaks (nodes : List H) (pos : ℕ) (peaks : List ℕ) : Option (List H × ℕ) :=
  peaks.zipIdx.foldlM (fun acc x =>
    if x.1 = pos then some (acc.1, x.2) else nodes[x.1]?.map fun h => (acc.1 ++ [h], acc.2)) ([], 0)

def prove (m : MerkleMountainRange H) (leafIndex : UInt64) : Option (MMRProof H) :=
  if m.leafCount ≤ leafIndex.toNat then none
  else
    let nodePos := leafIndexToNodePos leafIndex.toNat
    if m.nodes.length ≤ nodePos then none
    else
      (siblingLoop m.nodes leafIndex.toNat 64 0 nodePos []).bind fun (siblings, pos) =>
        (otherPeaks m.nodes pos m.peakPositions).map fun (peakHashes, peakIndex) =>
          { leafIndex := leafIndex
            mmrSize := .ofNat m.nodes.length
            siblings := siblings
            peakHashes := peakHashes
            peakIndex := .ofNat peakIndex }

/-- Binary search for the leaf count, in arithmetic of 64-bit words. Where the loop does not end
there is no result. -/
def searchLeafCount (mmrSize : ℕ) : ℕ → ℕ → ℕ → Option ℕ
  | 0, _, _ => none
  | fuel + 1, lo, hi =>
    if hi < lo then none
    else
      let mid := lo + (hi - lo) / 2
      let sz := (2 * mid + 2 ^ 64 - countOnes mid) % 2 ^ 64
      if sz = mmrSize then some mid
      else if sz < mmrSize then searchLeafCount mmrSize fuel ((mid + 1) % 2 ^ 64) hi
      else if mid = 0 then none
      else searchLeafCount mmrSize fuel lo (mid - 1)

/-- Number of leaves of a range with `mmrSize` nodes, if there is one. -/
def leafCountFromMmrSize (mmrSize : ℕ) : Option ℕ :=
  if mmrSize = 0 then some 0 else searchLeafCount mmrSize 65 1 mmrSize

/-- Heights of the peaks of `leafCount` leaves, from the highest to the lowest. -/
def peakHeightsFromLeafCount (leafCount : ℕ) : List ℕ :=
  (List.range 64).reverse.filter fun bit => leafCount.testBit bit

/-- Put a peak back among the others. -/
def withPeak (peakHashes : List H) (peakIndex : ℕ) (current : H) : List H :=
  ((List.range (peakHashes.length + 1)).foldl (fun acc i =>
    if i = peakIndex then (acc.1 ++ [current], acc.2)
    else match peakHashes[acc.2]? with
      | none => acc
      | some h => (acc.1 ++ [h], acc.2 + 1)) (([], 0) : List H × ℕ)).1

def verify [DecidableEq H] (zero : H) (proof : MMRProof H)
    (nullifierHash expectedRoot : H) : Bool :=
  match leafCountFromMmrSize proof.mmrSize.toNat with
  | none => false
  | some leafCount =>
    if leafCount ≤ proof.leafIndex.toNat then false
    else if proof.peakHashes.length + 1 ≠ countOnes leafCount then false
    else match (peakHeightsFromLeafCount leafCount)[proof.peakIndex.toNat]? with
      | none => false
      | some height =>
        if proof.siblings.length ≠ height then false
        else
          let current := climb hashPair proof.leafIndex.toNat 0 proof.siblings nullifierHash
          if proof.peakHashes.length < proof.peakIndex.toNat then false
          else
            decide (bag hashPair zero
              (withPeak proof.peakHashes proof.peakIndex.toNat current) = expectedRoot)

end MerkleMountainRange

end EvaporChain
