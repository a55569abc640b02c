import EvaporChain.Crypto.Verkle

/-!
# The energy-annotated Verkle trie

A Verkle trie whose leaves carry an energy and whose internal nodes cache a summary of the energies
below them. A subtree without energy can be compressed to its hash. The keys of a compressed
subtree are gone, and a later insertion into it has to guess a place for what was there.
-/

namespace EvaporChain

open Core
open Verkle (maxDepth keyByte)

/-! ### Energy metadata -/

/-- Summary of the leaves of a subtree. -/
structure EnergyMeta where
  maxEnergy : ℕ
  minHalfLife : ℕ
  leafCount : ℕ
  lastActivityEpoch : ℕ
deriving DecidableEq

namespace EnergyMeta

/-- A subtree without leaves. -/
def empty : EnergyMeta := ⟨0, 2 ^ 64 - 1, 0, 0⟩

/-- The count of leaves is a saturating 32-bit word. -/
def merge (a b : EnergyMeta) : EnergyMeta where
  maxEnergy := max a.maxEnergy b.maxEnergy
  minHalfLife := min a.minHalfLife b.minHalfLife
  leafCount := min (a.leafCount + b.leafCount) (2 ^ 32 - 1)
  lastActivityEpoch := max a.lastActivityEpoch b.lastActivityEpoch

def isCold (m : EnergyMeta) : Bool := m.maxEnergy == 0 && decide (m.leafCount > 0)

end EnergyMeta

/-! ### Nodes -/

structure EnergyLeaf where
  key : Hash
  value : Hash
  energy : ℕ
  halfLife : ℕ
  epoch : ℕ
deriving DecidableEq

/-- What is left of a dead subtree. -/
structure CompressedNode (H : Type) where
  commitment : H
  leafCount : ℕ
  lastActivityEpoch : ℕ

/-- As in the Verkle trie, an absent child is `empty`. -/
inductive EnergyNode (H : Type)
  | internal (children : UInt8 → EnergyNode H) (cached : EnergyMeta)
  | leaf (l : EnergyLeaf)
  | compressed (c : CompressedNode H)
  | empty

namespace EnergyNode

variable {H : Type}

def isEmpty : EnergyNode H → Bool
  | .empty => true
  | _ => false

def metadata : EnergyNode H → EnergyMeta
  | .empty => EnergyMeta.empty
  | .leaf l => ⟨l.energy, l.halfLife, 1, l.epoch⟩
  | .internal _ cached => cached
  | .compressed c => ⟨0, 2 ^ 64 - 1, c.leafCount, c.lastActivityEpoch⟩

variable (children : UInt8 → EnergyNode H)

def recomputeMeta : EnergyMeta :=
  (present isEmpty children).foldl (fun m idx => m.merge (children idx).metadata) EnergyMeta.empty

/-- An internal node with fresh metadata. -/
def ofChildren : EnergyNode H :=
  .internal children (recomputeMeta children)

variable {F G : Type} [Ring F] [AddCommGroup G] [Module F G] (S : VerkleScheme H F G)

/-- A compressed node has the hash of the subtree it stands for. -/
def hash : EnergyNode H → H
  | .empty => S.zero
  | .leaf l => S.leafHash l.key l.value
  | .internal children _ =>
    S.internalHash <| VectorCommitment.commit S.generators fun idx =>
      if (children idx).isEmpty then 0 else S.bytesToScalar (hash (children idx))
  | .compressed c => c.commitment

/-! ### The map -/

/-- Insertion of a leaf with `left` levels below the node. -/
def insertRecursive (new : EnergyLeaf) : ℕ → EnergyNode H → EnergyNode H
  | 0, _ => .leaf new
  | _ + 1, .empty => .leaf new
  | left + 1, .leaf existing =>
    if existing.key = new.key then .leaf new
    else
      let existingIdx := keyByte existing.key left
      let newIdx := keyByte new.key left
      if existingIdx = newIdx then
        let child := insertRecursive new left (.leaf existing)
        ofChildren (Function.update (fun _ => .empty) newIdx child)
      else
        ofChildren (Function.update (Function.update (fun _ => .empty) existingIdx (.leaf existing))
          newIdx (.leaf new))
  | left + 1, .compressed c =>
    -- the compressed node is put at index 0, or lost if the new leaf is there
    let idx := keyByte new.key left
    let children : UInt8 → EnergyNode H :=
      if idx ≠ 0 then Function.update (fun _ => .empty) 0 (.compressed c) else fun _ => .empty
    ofChildren (Function.update children idx (.leaf new))
  | left + 1, .internal children _ =>
    let idx := keyByte new.key left
    ofChildren (Function.update children idx (insertRecursive new left (children idx)))

def getRecursive (key : Hash) : ℕ → EnergyNode H → Option Hash
  | _, .empty => none
  | _, .compressed _ => none
  | _, .leaf l => if l.key = key then some l.value else none
  | 0, .internal _ _ => none
  | left + 1, .internal children _ => getRecursive key left (children (keyByte key left))

/-- What is left of an internal node after a deletion below it. -/
def collapse (children : UInt8 → EnergyNode H) : EnergyNode H :=
  match present isEmpty children with
  | [] => .empty
  | [idx] =>
    match children idx with
    | .leaf l => .leaf l
    | _ => ofChildren children
  | _ => ofChildren children

def deleteRecursive (key : Hash) : ℕ → EnergyNode H → EnergyNode H × Bool
  | _, .empty => (.empty, false)
  | _, .compressed c => (.compressed c, false)
  | _, .leaf l => if l.key = key then (.empty, true) else (.leaf l, false)
  | 0, .internal children cached => (.internal children cached, false)
  | left + 1, .internal children cached =>
    let idx := keyByte key left
    let (newChild, deleted) := deleteRecursive key left (children idx)
    let children := Function.update children idx newChild
    if deleted then (collapse children, true) else (.internal children cached, false)

def updateEnergyRecursive (key : Hash) (newEnergy epoch : ℕ) :
    ℕ → EnergyNode H → EnergyNode H × Bool
  | _, .empty => (.empty, false)
  | _, .compressed c => (.compressed c, false)
  | _, .leaf l =>
    if l.key = key then (.leaf { l with energy := newEnergy, epoch := epoch }, true)
    else (.leaf l, false)
  | 0, .internal children cached => (.internal children cached, false)
  | left + 1, .internal children cached =>
    let idx := keyByte key left
    let (child, found) := updateEnergyRecursive key newEnergy epoch left (children idx)
    let children := Function.update children idx child
    if found then (ofChildren children, true) else (.internal children cached, false)

/-! ### Compression -/

/-- An internal node whose leaves are all dead is replaced by its hash. -/
def compressChild : EnergyNode H → EnergyNode H × ℕ
  | .internal children cached =>
    if cached.isCold then
      (.compressed ⟨hash S (.internal children cached), cached.leafCount,
        cached.lastActivityEpoch⟩, 1)
    else (.internal children cached, 0)
  | node => (node, 0)

/-- Children first, so that a dead subtree is compressed from its bottom. The root itself is never
compressed. -/
def compressRecursive : EnergyNode H → EnergyNode H × ℕ
  | .internal children _ =>
    let recursed := fun idx => compressRecursive (children idx)
    let compressed := fun idx => compressChild S (recursed idx).1
    (ofChildren fun idx => (compressed idx).1, ∑ idx, ((recursed idx).2 + (compressed idx).2))
  | node => (node, 0)

end EnergyNode

structure EnergyVerkleTrie (H : Type) where
  root : EnergyNode H
  compressions : ℕ
  decompressions : ℕ

structure EnergyVerkleProof (H G : Type) extends VerkleProof H G where
  energyPath : List EnergyMeta
  hitCompressed : Bool

/-- Proof of several keys at once; of its fields those that the verifier reads. -/
structure EnergyVerkleMultiProof (H : Type) where
  keys : List Hash
  values : List (Option Hash)
  depths : List ℕ
  /-- Siblings at the internal nodes, by the path to the node. -/
  siblings : List UInt8 → Option (List (UInt8 × H))

namespace EnergyVerkleMultiProof

variable {H : Type} (proof : EnergyVerkleMultiProof H)

def keyAt (i : ℕ) : Hash := proof.keys.getD i Hash.zero

def valueAt (i : ℕ) : Option Hash := proof.values.getD i none

def depthAt (i : ℕ) : ℕ := proof.depths.getD i 0

end EnergyVerkleMultiProof

namespace EnergyVerkleTrie

variable {H F G : Type} [Ring F] [AddCommGroup G] [Module F G] (S : VerkleScheme H F G)

def new : EnergyVerkleTrie H := ⟨.empty, 0, 0⟩

variable (trie : EnergyVerkleTrie H)

def insert (key value : Hash) (energy halfLife epoch : ℕ) : EnergyVerkleTrie H :=
  { trie with root := trie.root.insertRecursive ⟨key, value, energy, halfLife, epoch⟩ maxDepth }

variable (key : Hash)

def get : Option Hash := trie.root.getRecursive key maxDepth

def delete : EnergyVerkleTrie H × Bool :=
  let (newRoot, deleted) := trie.root.deleteRecursive key maxDepth
  ({ trie with root := newRoot }, deleted)

def updateEnergy (newEnergy epoch : ℕ) : EnergyVerkleTrie H × Bool :=
  let (root, found) := trie.root.updateEnergyRecursive key newEnergy epoch maxDepth
  ({ trie with root := root }, found)

def compressCold : EnergyVerkleTrie H × ℕ :=
  let (root, count) := trie.root.compressRecursive S
  ({ trie with root := root, compressions := trie.compressions + count }, count)

def rootHash : H := trie.root.hash S

/-! ### Single proofs -/

/-- Metadata, commitment, index and siblings of each internal node on the path of the key. -/
def proveLoop (key : Hash) : ℕ → EnergyNode H → List (EnergyMeta × G × UInt8 × List (UInt8 × H))
  | left + 1, .internal children cached =>
    let idx := keyByte key left
    let commitment := VectorCommitment.commit S.generators fun idx =>
      if (children idx).isEmpty then 0 else S.bytesToScalar ((children idx).hash S)
    let levelSiblings :=
      ((present EnergyNode.isEmpty children).filter (· ≠ idx)).map fun childIdx =>
      (childIdx, (children childIdx).hash S)
    (cached, commitment, idx, levelSiblings) :: proveLoop key left (children idx)
  | _, _ => []

/-- The path of the key ends in a compressed node. -/
def hitsCompressed (key : Hash) : ℕ → EnergyNode H → Bool
  | _, .compressed _ => true
  | left + 1, .internal children _ => hitsCompressed key left (children (keyByte key left))
  | _, _ => false

def prove : EnergyVerkleProof H G :=
  let levels := proveLoop S key maxDepth trie.root
  { key
    value := trie.get key
    depth := levels.length
    commitments := levels.map (·.2.1)
    pathIndices := levels.map (·.2.2.1)
    siblings := levels.map (·.2.2.2)
    energyPath := levels.map (·.1)
    hitCompressed := hitsCompressed key maxDepth trie.root }

/-- Unlike `VerkleTrie.verify`, this does not look at the indices of the siblings. -/
def verify [DecidableEq H] (proof : EnergyVerkleProof H G) (expectedRoot : H) : Bool :=
  VerkleTrie.checkPath S proof.toVerkleProof (!proof.hitCompressed) true expectedRoot

/-! ### Multiproofs -/

variable (proof : EnergyVerkleMultiProof H)

/-- Hash of a node at which all keys are resolved: of the leaf of the only key with a value. -/
def terminalHash (indices : List ℕ) : Option H :=
  match indices.filter fun i => (proof.valueAt i).isSome with
  | [] => some S.zero
  | [i] => some (S.leafHash (proof.keyAt i) ((proof.valueAt i).getD Hash.zero))
  | _ => none

/-- The bytes by which keys go on, in ascending order. -/
def groupBytes (left : ℕ) (indices : List ℕ) : List UInt8 :=
  allBytes.filter fun byte => indices.any fun i => keyByte (proof.keyAt i) left == byte

def group (left : ℕ) (indices : List ℕ) (byte : UInt8) : List ℕ :=
  indices.filter fun i => keyByte (proof.keyAt i) left == byte

/-- Hash of the node with `left` levels at `path`, from the keys below it. -/
def reconstructMp (proof : EnergyVerkleMultiProof H) : ℕ → List ℕ → List UInt8 → Option H
  | left, indices, path =>
    let depth := maxDepth - left
    if indices.isEmpty then some S.zero
    else if indices.all fun i => proof.depthAt i ≤ depth then terminalHash S proof indices
    else match left with
      | 0 => none
      | left + 1 =>
        if indices.any fun i => proof.depthAt i ≤ depth then none
        else do
          let children ← (groupBytes proof left indices).mapM fun byte => do
            let child ← reconstructMp proof left (group proof left indices byte) (path ++ [byte])
            return (byte, S.bytesToScalar child)
          let siblings := ((proof.siblings path).getD []).map fun sibling =>
            (sibling.1, S.bytesToScalar sibling.2)
          return S.internalHash (VectorCommitment.commitList S.generators (children ++ siblings))

/-- An index out of range ends the source's run, so a proof with too few values or depths is not
accepted. -/
def verifyMulti [DecidableEq H] (expectedRoot : H) : Bool :=
  if proof.keys.isEmpty then expectedRoot == S.zero
  else if proof.depths.length < proof.keys.length ∨
      proof.values.length < proof.keys.length then false
  else reconstructMp S proof maxDepth (List.range proof.keys.length) [] == some expectedRoot

end EnergyVerkleTrie

end EvaporChain
