import EvaporChain.Core.ByteMap
import EvaporChain.Core.Bytes
import EvaporChain.Core.VectorCommitment

/-!
# The Verkle trie

A trie over 32-byte keys with one child for each byte. A key alone in its subtree is a leaf there,
and an internal node is committed to by a linear commitment to the hashes of its children.
-/

namespace EvaporChain

open Core

/-- What a Verkle trie takes from BLAKE3 and from the curve. `H` stands for `[u8; 32]` as the
digests of nodes, `F` for the scalars and `G` for the points. -/
structure VerkleScheme (H F G : Type) where
  /-- `[0u8; 32]`, the hash of an empty node. -/
  zero : H
  /-- `blake3(VERKLE_LEAF_DST ‖ key ‖ value)`. -/
  leafHash : Hash → Hash → H
  /-- `blake3(VERKLE_INTERNAL_DST ‖ point_to_bytes(commitment))`. -/
  internalHash : G → H
  bytesToScalar : H → F
  generators : UInt8 → G

namespace Verkle

/-- One byte of the key for each level. -/
def maxDepth : ℕ := 32

/-- The byte `key[depth]` for the depth with `left` levels below its own. -/
def keyByte (key : Hash) (left : ℕ) : UInt8 := key.toList.getD (maxDepth - 1 - left) 0

/-- The children of an internal node are a map from bytes; an absent one is `empty`, which no
operation stores. -/
inductive Node
  | internal (children : UInt8 → Node)
  | leaf (key value : Hash)
  | empty

instance : Inhabited Node := ⟨.empty⟩

def Node.isEmpty : Node → Bool
  | .empty => true
  | _ => false

variable {H F G : Type} [Ring F] [AddCommGroup G] [Module F G] (S : VerkleScheme H F G)

/-! ### Hashes -/

def nodeHash : Node → H
  | .empty => S.zero
  | .leaf key value => S.leafHash key value
  | .internal children =>
    S.internalHash <| VectorCommitment.commit S.generators fun idx =>
      if (children idx).isEmpty then 0 else S.bytesToScalar (nodeHash (children idx))

def commitInternal (children : UInt8 → Node) : G :=
  VectorCommitment.commit S.generators fun idx =>
    if (children idx).isEmpty then 0 else S.bytesToScalar (nodeHash S (children idx))

/-! ### The map

The first argument of each recursion is the number of levels that are left, `MAX_DEPTH - depth`. -/

def insertRecursive (key value : Hash) : ℕ → Node → Node
  | 0, _ => .leaf key value
  | _ + 1, .empty => .leaf key value
  | left + 1, .leaf existing value' =>
    if existing = key then .leaf key value
    else
      let existingIdx := keyByte existing left
      let newIdx := keyByte key left
      if existingIdx = newIdx then
        let child := insertRecursive key value left (.leaf existing value')
        .internal (Function.update (fun _ => .empty) newIdx child)
      else
        .internal (Function.update
          (Function.update (fun _ => .empty) existingIdx (.leaf existing value'))
          newIdx (.leaf key value))
  | left + 1, .internal children =>
    let idx := keyByte key left
    .internal (Function.update children idx (insertRecursive key value left (children idx)))

def getRecursive (key : Hash) : ℕ → Node → Option Hash
  | _, .empty => none
  | _, .leaf key' value => if key' = key then some value else none
  | 0, .internal _ => none
  | left + 1, .internal children => getRecursive key left (children (keyByte key left))

/-- What is left of an internal node after a deletion below it: nothing, its only child if that is
a leaf, or the node. -/
def collapse (children : UInt8 → Node) : Node :=
  match present Node.isEmpty children with
  | [] => .empty
  | [idx] =>
    match children idx with
    | .leaf key value => .leaf key value
    | _ => .internal children
  | _ => .internal children

/-- The second component tells whether the key was there. -/
def deleteRecursive (key : Hash) : ℕ → Node → Node × Bool
  | _, .empty => (.empty, false)
  | _, .leaf key' value => if key' = key then (.empty, true) else (.leaf key' value, false)
  | 0, .internal children => (.internal children, false)
  | left + 1, .internal children =>
    let idx := keyByte key left
    let (newChild, deleted) := deleteRecursive key left (children idx)
    let children := Function.update children idx newChild
    if deleted then (collapse children, true) else (.internal children, false)

end Verkle

open Verkle

structure VerkleTrie where
  root : Node

/-- Proof that a key has a value or, without one, is absent. -/
structure VerkleProof (H G : Type) where
  key : Hash
  value : Option Hash
  depth : ℕ
  /-- Only their number is checked. -/
  commitments : List G
  pathIndices : List UInt8
  siblings : List (List (UInt8 × H))

namespace VerkleTrie

variable {H F G : Type} [Ring F] [AddCommGroup G] [Module F G] (S : VerkleScheme H F G)

def new : VerkleTrie := ⟨.empty⟩

variable (trie : VerkleTrie)

def insert (key value : Hash) : VerkleTrie :=
  ⟨insertRecursive key value maxDepth trie.root⟩

def get (key : Hash) : Option Hash := getRecursive key maxDepth trie.root

def delete (key : Hash) : VerkleTrie × Bool :=
  let (newRoot, deleted) := deleteRecursive key maxDepth trie.root
  (⟨newRoot⟩, deleted)

def rootHash : H := nodeHash S trie.root

/-! ### Proofs -/

/-- Commitment, index and siblings of each internal node on the path of the key. -/
def proveLoop (key : Hash) : ℕ → Node → List (G × UInt8 × List (UInt8 × H))
  | left + 1, .internal children =>
    let idx := keyByte key left
    let levelSiblings := ((present Node.isEmpty children).filter (· ≠ idx)).map fun childIdx =>
      (childIdx, nodeHash S (children childIdx))
    (commitInternal S children, idx, levelSiblings) :: proveLoop key left (children idx)
  | _, _ => []

def prove (trie : VerkleTrie) (key : Hash) : VerkleProof H G :=
  let levels := proveLoop S key maxDepth trie.root
  { key
    value := trie.get key
    depth := levels.length
    commitments := levels.map (·.1)
    pathIndices := levels.map (·.2.1)
    siblings := levels.map (·.2.2) }

/-- Commitment of one level rebuilt from the child on the path and the siblings. -/
def rebuildLevel (level : UInt8 × List (UInt8 × H)) (currentHash : H) : H :=
  S.internalHash (VectorCommitment.commitList S.generators
    ((level.1, S.bytesToScalar currentHash) ::
      level.2.map fun sibling => (sibling.1, S.bytesToScalar sibling.2)))

variable (proof : VerkleProof H G)

/-- The levels from the bottom to the top. -/
def rebuild (leafHash : H) : H :=
  (proof.pathIndices.zip proof.siblings).foldr (rebuildLevel S) leafHash

/-- The path follows the bytes of the key. -/
def pathBound : Bool :=
  (List.range proof.depth).all fun level => proof.pathIndices[level]? == proof.key.toList[level]?

/-- Siblings have different indices, none of them the one of the path. -/
def siblingsValid : Bool :=
  (proof.pathIndices.zip proof.siblings).all fun (pathIdx, siblings) =>
    (siblings.map (·.1)).all (· != pathIdx) && decide (siblings.map (·.1)).Nodup

/-- What both tries check; `bare` is asked of a proof without levels, `levelled` of one with. -/
def checkPath [DecidableEq H] (bare levelled : Bool) (expectedRoot : H) : Bool :=
  if proof.depth > maxDepth then false
  else if proof.depth = 0 then
    if !bare then false
    else match proof.value with
      | none => expectedRoot == S.zero
      | some value => S.leafHash proof.key value == expectedRoot
  else if proof.commitments.length ≠ proof.depth ∨ proof.pathIndices.length ≠ proof.depth ∨
      proof.siblings.length ≠ proof.depth then false
  else if !pathBound proof then false
  else
    let leafHash := match proof.value with
      | some value => S.leafHash proof.key value
      | none => S.zero
    if !levelled then false
    else rebuild S proof leafHash == expectedRoot

def verify [DecidableEq H] (expectedRoot : H) : Bool :=
  checkPath S proof true (siblingsValid proof) expectedRoot

end VerkleTrie

end EvaporChain
