import EvaporChain.Core.Run
import EvaporChain.Crypto.EnergyVerkle
import EvaporChain.Crypto.VerkleProofs

/-!
# The energy-annotated trie and the Verkle trie

Without its annotations the trie is a Verkle trie, with the same keys, values and hashes. This
stays so as long as no insertion or deletion runs into a compressed subtree.
-/

namespace EvaporChain

open Core Function
open Verkle (Node nodeHash maxDepth keyByte)

variable {H F G : Type} [Ring F] [AddCommGroup G] [Module F G]

namespace EnergyNode

open EnergyVerkleTrie (hitsCompressed)

/-- The node of the Verkle trie that an annotated node stands for; for a compressed node one with
the stored hash. -/
inductive Represents (S : VerkleScheme H F G) : EnergyNode H → Node → Prop
  | empty : Represents S .empty .empty
  | leaf (l : EnergyLeaf) : Represents S (.leaf l) (.leaf l.key l.value)
  | internal {children : UInt8 → EnergyNode H} {plain : UInt8 → Node} (cached : EnergyMeta)
      (h : ∀ i, Represents S (children i) (plain i)) :
      Represents S (.internal children cached) (.internal plain)
  | compressed {c : CompressedNode H} {plain : UInt8 → Node}
      (h : c.commitment = nodeHash S (.internal plain)) :
      Represents S (.compressed c) (.internal plain)

variable {S : VerkleScheme H F G} {e : EnergyNode H} {n : Node} {left : ℕ} {key : Hash}
  {children : UInt8 → EnergyNode H} {plain : UInt8 → Node}

lemma Represents.isEmpty (h : Represents S e n) : e.isEmpty = n.isEmpty := by cases h <;> rfl

lemma Represents.ofChildren (h : ∀ i, Represents S (children i) (plain i)) :
    Represents S (ofChildren children) (.internal plain) := .internal _ h

lemma Represents.present (h : ∀ i, Represents S (children i) (plain i)) :
    present EnergyNode.isEmpty children = present Node.isEmpty plain := by
  unfold Core.present
  congr 1
  funext i
  rw [(h i).isEmpty]

/-- Hashes agree, also of compressed nodes. -/
lemma Represents.hash (h : Represents S e n) : e.hash S = nodeHash S n := by
  induction h with
  | empty | leaf l => rfl
  | compressed hc => exact hc
  | internal cached hchildren ih =>
    simp only [EnergyNode.hash, nodeHash]
    congr 2
    funext i
    rw [(hchildren i).isEmpty, ih i]

lemma Represents.update (h : ∀ i, Represents S (children i) (plain i)) {idx : UInt8}
    (hchild : Represents S e n) (i : UInt8) :
    Represents S (Function.update children idx e i) (Function.update plain idx n i) := by
  rw [update_apply, update_apply]
  split_ifs
  · exact hchild
  · exact h i

lemma Represents.getRecursive (h : Represents S e n) (hhit : hitsCompressed key left e = false) :
    e.getRecursive key left = Verkle.getRecursive key left n := by
  induction h generalizing left with
  | empty | leaf l => cases left <;> rfl
  | compressed hc => cases left <;> cases hhit
  | internal cached hchildren ih =>
    cases left with
    | zero => rfl
    | succ left => exact ih _ hhit

/-! ### Insertion -/

lemma Represents.insertRecursive_leaf (l new : EnergyLeaf) :
    Represents S (insertRecursive new left (.leaf l))
      (Verkle.insertRecursive new.key new.value left (.leaf l.key l.value)) := by
  induction left with
  | zero => exact .leaf new
  | succ left ih =>
    simp only [insertRecursive, Verkle.insertRecursive]
    split_ifs
    · exact .leaf new
    · exact .ofChildren (.update (fun _ => .empty) ih)
    · exact .ofChildren (.update (.update (fun _ => .empty) (.leaf l)) (.leaf new))

lemma Represents.insertRecursive (h : Represents S e n) (new : EnergyLeaf)
    (hhit : hitsCompressed new.key left e = false) :
    Represents S (e.insertRecursive new left)
      (Verkle.insertRecursive new.key new.value left n) := by
  induction h generalizing left with
  | empty => cases left <;> exact .leaf new
  | leaf l => exact insertRecursive_leaf l new
  | compressed hc => cases left <;> cases hhit
  | internal cached hchildren ih =>
    cases left with
    | zero => exact .leaf new
    | succ left => exact .ofChildren (.update hchildren (ih _ hhit))

@[simp] lemma hitsCompressed_empty : hitsCompressed key left (.empty : EnergyNode H) = false := by
  cases left <;> rfl

@[simp] lemma hitsCompressed_leaf (l : EnergyLeaf) :
    hitsCompressed key left (.leaf l : EnergyNode H) = false := by
  cases left <;> rfl

@[simp] lemma hitsCompressed_compressed (c : CompressedNode H) :
    hitsCompressed key left (.compressed c) = true := by
  cases left <;> rfl

lemma hitsCompressed_update {idx : UInt8} (cached : EnergyMeta)
    (hkey : hitsCompressed key left (children (keyByte key left)) = false)
    (hchild : hitsCompressed key left (children idx) = false → hitsCompressed key left e = false) :
    hitsCompressed key (left + 1) (.internal (Function.update children idx e) cached) = false := by
  rw [hitsCompressed, update_apply]
  split_ifs with hidx
  · exact hchild (hidx ▸ hkey)
  · exact hkey

lemma hitsCompressed_insertRecursive_leaf (l new : EnergyLeaf) :
    hitsCompressed key left (insertRecursive new left (.leaf l : EnergyNode H)) = false := by
  induction left with
  | zero => rfl
  | succ left ih =>
    simp only [EnergyNode.insertRecursive]
    split_ifs
    · rfl
    · exact hitsCompressed_update _ hitsCompressed_empty fun _ => ih
    · refine hitsCompressed_update _ ?_ fun _ => hitsCompressed_leaf new
      rw [update_apply]
      split_ifs
      · exact hitsCompressed_leaf l
      · exact hitsCompressed_empty

lemma hitsCompressed_insertRecursive (new : EnergyLeaf)
    (hhit : hitsCompressed new.key left e = false) (hkey : hitsCompressed key left e = false) :
    hitsCompressed key left (e.insertRecursive new left) = false := by
  induction e generalizing left with
  | empty => cases left <;> rfl
  | leaf l => exact hitsCompressed_insertRecursive_leaf l new
  | compressed c => simp at hhit
  | internal children cached ih =>
    cases left with
    | zero => rfl
    | succ left => exact hitsCompressed_update _ hkey (ih _ hhit)

/-! ### Deletion -/

lemma Represents.collapse (h : ∀ i, Represents S (children i) (plain i)) :
    Represents S (collapse children) (Verkle.collapse plain) := by
  unfold EnergyNode.collapse Verkle.collapse
  rw [Represents.present h]
  rcases Core.present Node.isEmpty plain with _ | ⟨i, _ | ⟨j, rest⟩⟩
  · exact .empty
  · -- a leaf stands for a leaf, and no other node does
    have hchild := h i
    cases hi : children i <;> rw [hi] at hchild <;> cases hp : plain i <;> rw [hp] at hchild <;>
      cases hchild
    · simp only [hi, hp]
      exact .ofChildren h
    · simp only [hi, hp]
      exact .leaf _
    · simp only [hi, hp]
      exact .ofChildren h
    · simp only [hi, hp]
      exact .ofChildren h
  · exact .ofChildren h

lemma deleteRecursive_leaf (l : EnergyLeaf) :
    (EnergyNode.leaf l : EnergyNode H).deleteRecursive key left =
      if l.key = key then (.empty, true) else (.leaf l, false) := by
  cases left <;> rfl

lemma Represents.deleteRecursive (h : Represents S e n) (hhit : hitsCompressed key left e = false) :
    Represents S (e.deleteRecursive key left).1 (Verkle.deleteRecursive key left n).1 ∧
      (e.deleteRecursive key left).2 = (Verkle.deleteRecursive key left n).2 := by
  induction h generalizing left with
  | empty => cases left <;> exact ⟨.empty, rfl⟩
  | leaf l =>
    rw [deleteRecursive_leaf, Verkle.deleteRecursive_leaf]
    split_ifs
    · exact ⟨.empty, rfl⟩
    · exact ⟨.leaf l, rfl⟩
  | compressed hc => cases left <;> cases hhit
  | internal cached hchildren ih =>
    cases left with
    | zero => exact ⟨.internal cached hchildren, rfl⟩
    | succ left =>
      obtain ⟨hchild, hflag⟩ := ih _ hhit
      simp only [EnergyNode.deleteRecursive, Verkle.deleteRecursive, ← hflag]
      split_ifs
      · exact ⟨.collapse (.update hchildren hchild), rfl⟩
      · exact ⟨.internal cached (.update hchildren hchild), rfl⟩

/-- A deletion that runs into a compressed subtree does nothing. -/
lemma deleteRecursive_of_hits (hhit : hitsCompressed key left e = true) :
    e.deleteRecursive key left = (e, false) := by
  induction e generalizing left with
  | empty | leaf l => simp at hhit
  | compressed c => cases left <;> rfl
  | internal children cached ih =>
    cases left with
    | zero => rfl
    | succ left =>
      simp only [EnergyNode.deleteRecursive]
      rw [ih _ hhit, update_eq_self]
      rfl

lemma hitsCompressed_deleteRecursive {key' : Hash} (hkey : hitsCompressed key left e = false) :
    hitsCompressed key left (e.deleteRecursive key' left).1 = false := by
  induction e generalizing left with
  | empty => cases left <;> rfl
  | leaf l =>
    rw [deleteRecursive_leaf]
    split_ifs <;> simp
  | compressed c => simp at hkey
  | internal children cached ih =>
    cases left with
    | zero => rfl
    | succ left =>
      simp only [EnergyNode.deleteRecursive]
      split_ifs
      · unfold EnergyNode.collapse
        split
        · rfl
        · split
          · rfl
          · exact hitsCompressed_update _ hkey (ih _)
        · exact hitsCompressed_update _ hkey (ih _)
      · exact hitsCompressed_update _ hkey (ih _)

/-! ### Energies -/

lemma updateEnergyRecursive_leaf (l : EnergyLeaf) (newEnergy epoch : ℕ) :
    (EnergyNode.leaf l : EnergyNode H).updateEnergyRecursive key newEnergy epoch left =
      if l.key = key then (.leaf { l with energy := newEnergy, epoch := epoch }, true)
      else (.leaf l, false) := by
  cases left <;> rfl

/-- Energies are not part of the map or of the hashes. -/
lemma Represents.updateEnergyRecursive (h : Represents S e n) (newEnergy epoch : ℕ) :
    Represents S (e.updateEnergyRecursive key newEnergy epoch left).1 n := by
  induction h generalizing left with
  | empty => cases left <;> exact .empty
  | leaf l =>
    rw [updateEnergyRecursive_leaf]
    split_ifs
    · exact .leaf { l with energy := newEnergy, epoch := epoch }
    · exact .leaf l
  | compressed hc => cases left <;> exact .compressed hc
  | internal cached hchildren ih =>
    cases left with
    | zero => exact .internal cached hchildren
    | succ left =>
      rename_i children plain
      have hupdate (i : UInt8) : Represents S (Function.update children (keyByte key left)
          ((children (keyByte key left)).updateEnergyRecursive key newEnergy epoch left).1 i)
          (plain i) := by
        rw [update_apply]
        split_ifs with hi
        · rw [hi]
          exact ih _
        · exact hchildren i
      simp only [EnergyNode.updateEnergyRecursive]
      split_ifs
      · exact .ofChildren hupdate
      · exact .internal cached hupdate

lemma hitsCompressed_updateEnergyRecursive {key' : Hash} {newEnergy epoch : ℕ}
    (hkey : hitsCompressed key left e = false) :
    hitsCompressed key left (e.updateEnergyRecursive key' newEnergy epoch left).1 = false := by
  induction e generalizing left with
  | empty => cases left <;> rfl
  | leaf l =>
    rw [updateEnergyRecursive_leaf]
    split_ifs <;> simp
  | compressed c => simp at hkey
  | internal children cached ih =>
    cases left with
    | zero => rfl
    | succ left =>
      simp only [EnergyNode.updateEnergyRecursive]
      split_ifs <;> exact hitsCompressed_update _ hkey (ih _)

/-! ### Compression -/

lemma Represents.compressChild (h : Represents S e n) : Represents S (compressChild S e).1 n := by
  cases h with
  | empty => exact .empty
  | leaf l => exact .leaf l
  | compressed hc => exact .compressed hc
  | internal cached hchildren =>
    simp only [EnergyNode.compressChild]
    split_ifs
    · exact .compressed (Represents.internal cached hchildren).hash
    · exact .internal cached hchildren

/-- Compression replaces subtrees by their hashes. -/
lemma Represents.compressRecursive (h : Represents S e n) :
    Represents S (compressRecursive S e).1 n := by
  induction h with
  | empty => exact .empty
  | leaf l => exact .leaf l
  | compressed hc => exact .compressed hc
  | internal cached hchildren ih => exact .ofChildren fun i => (ih i).compressChild

end EnergyNode

/-! ### Tries -/

namespace EnergyVerkleTrie

variable {S : VerkleScheme H F G} {trie : EnergyVerkleTrie H} {plain : VerkleTrie}

def Represents (S : VerkleScheme H F G) (trie : EnergyVerkleTrie H) (plain : VerkleTrie) : Prop :=
  trie.root.Represents S plain.root

/-- The path of the key does not end in a compressed node. -/
def Clear (trie : EnergyVerkleTrie H) (key : Hash) : Prop :=
  hitsCompressed key maxDepth trie.root = false

lemma represents_new : Represents S (new : EnergyVerkleTrie H) VerkleTrie.new := .empty

lemma clear_new (key : Hash) : (new : EnergyVerkleTrie H).Clear key := rfl

section

variable (h : Represents S trie plain)

include h

lemma Represents.rootHash : trie.rootHash S = plain.rootHash S := h.hash

variable {key : Hash}

lemma Represents.get (hkey : trie.Clear key) : trie.get key = plain.get key := h.getRecursive hkey

lemma Represents.insert (hkey : trie.Clear key) (value : Hash) (energy halfLife epoch : ℕ) :
    Represents S (trie.insert key value energy halfLife epoch) (plain.insert key value) :=
  h.insertRecursive ⟨key, value, energy, halfLife, epoch⟩ hkey

lemma Represents.delete (hkey : trie.Clear key) :
    Represents S (trie.delete key).1 (plain.delete key).1 := (h.deleteRecursive hkey).1

lemma Represents.deleted (hkey : trie.Clear key) :
    (trie.delete key).2 = (plain.delete key).2 := (h.deleteRecursive hkey).2

lemma Represents.updateEnergy (key : Hash) (newEnergy epoch : ℕ) :
    Represents S (trie.updateEnergy key newEnergy epoch).1 plain :=
  h.updateEnergyRecursive newEnergy epoch

lemma Represents.compressCold :
    Represents S (trie.compressCold S).1 plain := h.compressRecursive

end

/-! ### Runs without compression -/

/-- An operation that does not compress. -/
inductive Op
  | insert (key value : Hash) (energy halfLife epoch : ℕ)
  | delete (key : Hash)
  | updateEnergy (key : Hash) (newEnergy epoch : ℕ)

def Op.apply (trie : EnergyVerkleTrie H) : Op → EnergyVerkleTrie H
  | .insert key value energy halfLife epoch => trie.insert key value energy halfLife epoch
  | .delete key => (trie.delete key).1
  | .updateEnergy key newEnergy epoch => (trie.updateEnergy key newEnergy epoch).1

/-- The trie after a sequence of operations. -/
def run (H : Type) (ops : List Op) : EnergyVerkleTrie H := ops.foldl Op.apply new

/-- What an operation does to the map from keys to values. -/
def Op.effect (map : Hash → Option Hash) : Op → Hash → Option Hash
  | .insert key value _ _ _ => Function.update map key (some value)
  | .delete key => Function.update map key none
  | .updateEnergy _ _ _ => map

/-- The last inserted value of each key that was not deleted since. -/
def finalMap (ops : List Op) : Hash → Option Hash := ops.foldl Op.effect fun _ => none

/-- The key to be written is not in a compressed subtree. -/
def Op.Reaches (trie : EnergyVerkleTrie H) : Op → Prop
  | .insert key .. | .delete key => trie.Clear key
  | .updateEnergy .. => True

lemma Represents.apply {map : Hash → Option Hash} {op : Op} (h : Represents S trie plain)
    (hvalid : plain.Valid) (hget : ∀ key, plain.get key = map key) (hop : op.Reaches trie) :
    ∃ plain', Represents S (op.apply trie) plain' ∧ plain'.Valid ∧
      ∀ key, plain'.get key = op.effect map key := by
  cases op with
  | insert key value =>
    refine ⟨_, h.insert hop .., hvalid.insert key value, fun k => ?_⟩
    rw [hvalid.get_insert, hget, Op.effect, update_apply]
  | delete key =>
    refine ⟨_, h.delete hop, hvalid.delete key, fun k => ?_⟩
    rw [hvalid.get_delete, hget, Op.effect, update_apply]
  | updateEnergy => exact ⟨plain, h.updateEnergy .., hvalid, hget⟩

/-- No compressed node appears on a path by an operation that meets none. -/
lemma Clear.apply {key : Hash} (hkey : trie.Clear key) (op : Op) (hop : op.Reaches trie) :
    (op.apply trie).Clear key := by
  cases op with
  | insert => exact EnergyNode.hitsCompressed_insertRecursive _ hop hkey
  | delete => exact EnergyNode.hitsCompressed_deleteRecursive hkey
  | updateEnergy => exact EnergyNode.hitsCompressed_updateEnergyRecursive hkey

/-- A Verkle trie with the same map and hashes. -/
structure Mirrors (S : VerkleScheme H F G) (trie : EnergyVerkleTrie H) (plain : VerkleTrie)
    (map : Hash → Option Hash) : Prop where
  represents : Represents S trie plain
  clear : ∀ key, trie.Clear key
  valid : plain.Valid
  get : ∀ key, plain.get key = map key

lemma Mirrors.apply {map : Hash → Option Hash} (h : Mirrors S trie plain map) (op : Op) :
    ∃ plain', Mirrors S (op.apply trie) plain' (op.effect map) := by
  have hop : op.Reaches trie := by
    cases op <;> first | exact h.clear _ | trivial
  obtain ⟨plain', hrepresents, hvalid, hget⟩ := h.represents.apply h.valid h.get hop
  exact ⟨plain', hrepresents, fun key => (h.clear key).apply op hop, hvalid, hget⟩

lemma Mirrors.foldl {map : Hash → Option Hash} (h : Mirrors S trie plain map) (ops : List Op) :
    ∃ plain', Mirrors S (ops.foldl Op.apply trie) plain' (ops.foldl Op.effect map) := by
  induction ops generalizing trie plain map with
  | nil => exact ⟨plain, h⟩
  | cons op ops ih =>
    obtain ⟨plain', h'⟩ := h.apply op
    exact ih h'

/-- Every run without compression has a mirror. -/
lemma exists_mirrors (S : VerkleScheme H F G) (ops : List Op) :
    ∃ plain, Mirrors S (run H ops) plain (finalMap ops) :=
  Mirrors.foldl ⟨represents_new, clear_new, VerkleTrie.valid_new, VerkleTrie.get_new⟩ ops

/-- Without compression the trie is a map, deletion tells whether the key was there, and the root
depends on the map only. -/
theorem energy_trie_canonical (S : VerkleScheme H F G) (ops : List Op) :
    (∀ key, (run H ops).get key = finalMap ops key) ∧
      (∀ key, ((run H ops).delete key).2 = (finalMap ops key).isSome) ∧
      ∀ ops', finalMap ops = finalMap ops' →
        (run H ops).rootHash S = (run H ops').rootHash S := by
  obtain ⟨plain, h⟩ := exists_mirrors S ops
  refine ⟨?_, ?_, ?_⟩
  · intro key
    rw [h.represents.get (h.clear key), h.get]
  · intro key
    rw [h.represents.deleted (h.clear key), h.valid.deleted, h.get]
  · intro ops' hmap
    obtain ⟨plain', h'⟩ := exists_mirrors S ops'
    have heq : plain = plain' := h.valid.eq_of_get h'.valid fun k => by rw [h.get, h'.get, hmap]
    rw [h.represents.rootHash, h'.represents.rootHash, heq]

/-- A key that is deleted again leaves no trace in the root. -/
theorem energy_trie_canonical_deleted :
    (run ℕ [.insert Hash.zero Hash.zero 1 1 1, .insert (List.Vector.replicate 32 1) Hash.zero 1 1 1,
        .delete (List.Vector.replicate 32 1)]).rootHash VerkleScheme.free =
      (run ℕ [.insert Hash.zero Hash.zero 5 5 5]).rootHash VerkleScheme.free := by
  refine (energy_trie_canonical VerkleScheme.free _).2.2 _ ?_
  have hne : (Hash.zero : Hash) ≠ List.Vector.replicate 32 1 := by decide
  funext k
  simp only [finalMap, List.foldl, Op.effect, update_apply]
  by_cases hk : k = List.Vector.replicate 32 1
  · rw [if_pos hk, hk, if_neg hne.symm]
  · rw [if_neg hk, if_neg hk]

/-! ### Runs with compression -/

/-- An operation, or a compression of the dead subtrees. -/
def stepOrCompress (S : VerkleScheme H F G) (trie : EnergyVerkleTrie H) :
    Option Op → EnergyVerkleTrie H
  | some op => op.apply trie
  | none => (trie.compressCold S).1

/-- Compressions anywhere in a run change neither the root nor the values outside of what they
compress, provided that nothing is written inside a compressed subtree. -/
theorem compressCold_invisible (S : VerkleScheme H F G) (steps : List (Option Op))
    (hreach : ∀ x ∈ trace (stepOrCompress S) new steps, ∀ op ∈ x.2, op.Reaches x.1) :
    let trie := Core.run (stepOrCompress S) new steps
    trie.rootHash S = (run H steps.reduceOption).rootHash S ∧
      ∀ key, trie.Clear key → trie.get key = finalMap steps.reduceOption key := by
  have hrun := run_induction (stepOrCompress S)
    (P := fun trie past => ∃ plain, Represents S trie plain ∧ plain.Valid ∧
      ∀ key, plain.get key = finalMap (past.map Prod.snd).reduceOption key)
    (G := fun trie step => ∀ op ∈ step, op.Reaches trie)
    ⟨_, represents_new, VerkleTrie.valid_new, VerkleTrie.get_new⟩ ?_ steps hreach
  · obtain ⟨plain, h, hvalid, hget⟩ := hrun
    rw [map_snd_trace] at hget
    obtain ⟨plain', h'⟩ := exists_mirrors S steps.reduceOption
    have heq : plain = plain' := hvalid.eq_of_get h'.valid fun key => by rw [hget, h'.get]
    refine ⟨?_, fun key hkey => by rw [h.get hkey, hget]⟩
    rw [h.rootHash, h'.represents.rootHash, heq]
  · rintro trie past (_ | op) ⟨plain, h, hvalid, hget⟩ hop
    · exact ⟨plain, h.compressCold, hvalid, by simpa [List.reduceOption] using hget⟩
    · obtain ⟨plain', h'⟩ := h.apply hvalid hget (hop op rfl)
      exact ⟨plain', by simpa [stepOrCompress, finalMap, List.reduceOption] using h'⟩

/-- Two dead keys below one child, which is then compressed. -/
theorem compressCold_invisible_two :
    let ops : List Op := [.insert Hash.zero Hash.zero 0 1 1,
      .insert ⟨0 :: List.replicate 31 1, rfl⟩ Hash.zero 0 1 1]
    (Core.run (stepOrCompress VerkleScheme.free) new (ops.map some ++ [none])).rootHash
      VerkleScheme.free = (run ℕ ops).rootHash VerkleScheme.free := by
  refine (compressCold_invisible VerkleScheme.free _ ?_).1
  simp only [List.map, List.cons_append, List.nil_append, trace, List.forall_mem_cons]
  refine ⟨?_, ?_, by simp, by simp⟩
  all_goals rintro op ⟨⟩
  all_goals rfl

end EnergyVerkleTrie

end EvaporChain
