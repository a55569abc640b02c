import EvaporChain.Crypto.EnergyVerkleMap

/-!
# Proofs of the energy-annotated trie

The verifiers rebuild a level from the children on the path and from siblings whose indices nobody
checks. A sibling in the slot of the path stands in for the child that is really there, so that the
absence of every key of an internal node can be shown.
-/

namespace EvaporChain

open Core VerkleScheme List Option
open Verkle
open VectorCommitment (slot slot_cons slot_append slot_map commitList_eq_commit)

variable {H F G : Type} [Ring F] [AddCommGroup G] [Module F G]

namespace EnergyVerkleTrie

variable {S : VerkleScheme H F G} {plain : VerkleTrie}

/-! ### The Verkle trie below -/

/-- At most one key is below a node that is not internal. -/
lemma subsingleton_of_not_internal {n : Node} (h : ∀ children, n ≠ .internal children) {left : ℕ}
    {k k' : Hash} (hk : (getRecursive k left n).isSome) (hk' : (getRecursive k' left n).isSome) :
    k = k' := by
  cases n with
  | empty => simp at hk
  | leaf key value =>
    simp only [getRecursive_leaf, isSome_ite] at hk hk'
    exact hk.symm.trans hk'
  | internal children => exact absurd rfl (h children)

/-! ### Single proofs -/

/-- The siblings add nothing in the slots of the path. -/
def PathAlone (S : VerkleScheme H F G) (proof : EnergyVerkleProof H G) : Prop :=
  ∀ level ∈ proof.pathIndices.zip proof.siblings, slot (S.scalars level.2) level.1 = 0

section Single

variable [DecidableEq H] {proof : EnergyVerkleProof H G}

/-- With the path alone in its slots an accepted proof is right. -/
lemma value_of_pathAlone (hS : S.Ideal) (halone : PathAlone S proof)
    (h : verify S proof (plain.rootHash S) = true) : proof.value = plain.get proof.key := by
  obtain ⟨levels, hpath, hlevels, hroot⟩ := VerkleTrie.checkPath_inv h
  refine (getRecursive_of_rebuild hS le_rfl ?_ ?_ hroot.symm).symm
  · simpa using hpath
  · intro level hlevel
    exact halone level (hlevels level hlevel).2

/-- A proof with levels rebuilds the hash of an internal node. -/
lemma value_of_not_internal (hS : S.Ideal) (hroot : ∀ children, plain.root ≠ .internal children)
    (h : verify S proof (plain.rootHash S) = true) : proof.value = plain.get proof.key := by
  obtain ⟨levels, -, -, hrebuild⟩ := VerkleTrie.checkPath_inv h
  cases levels with
  | nil => exact (getRecursive_of_endHash hS maxDepth hrebuild.symm).symm
  | cons level rest =>
    obtain ⟨children, hchildren, -⟩ := rebuildLevel_inv hS hrebuild.symm
    exact absurd hchildren (hroot children)

/-- A claim that the key is absent. The children of the root are all listed as siblings, the one on
the path among them. -/
def forgedAbsence (S : VerkleScheme H F G) (children : UInt8 → Node) (key : Hash) :
    EnergyVerkleProof H G where
  key := key
  value := none
  depth := 1
  commitments := [0]
  pathIndices := [keyByte key 31]
  siblings := [(present Node.isEmpty children).map fun i => (i, nodeHash S (children i))]
  energyPath := []
  hitCompressed := false

omit [DecidableEq H] in
/-- The children as siblings of an empty slot. -/
lemma commitList_children (hzero : S.bytesToScalar S.zero = 0) (children : UInt8 → Node)
    (idx : UInt8) :
    VerkleTrie.rebuildLevel S
      (idx, (present Node.isEmpty children).map fun i => (i, nodeHash S (children i))) S.zero =
        nodeHash S (.internal children) := by
  rw [nodeHash_internal, VerkleTrie.rebuildLevel, commitList_eq_commit, commitInternal]
  congr 2
  funext i
  rw [slot_cons, List.map_map, Function.comp_def,
    slot_map nodup_present fun i => S.bytesToScalar (nodeHash S (children i)), hzero]
  cases hempty : (children i).isEmpty <;> simp [mem_present, hempty]

lemma verify_forgedAbsence (hzero : S.bytesToScalar S.zero = 0) (children : UInt8 → Node)
    (key : Hash) :
    verify S (forgedAbsence S children key) (nodeHash S (.internal children)) = true := by
  refine (VerkleTrie.checkPath_iff _ [(keyByte key 31, (present Node.isEmpty children).map
    fun i => (i, nodeHash S (children i)))] rfl rfl rfl rfl ?_ rfl).mpr
    (commitList_children hzero children _)
  exact ⟨_, (drop_keyBytes key (by decide : 31 < maxDepth)).symm⟩

/-- Accepted single proofs are right for every proof whose siblings add nothing in the slots of its
path. For all proofs this holds only if the trie has at most one key. -/
theorem energy_verify_sound_iff (hS : S.Ideal) (ops : List Op) :
    (∀ proof : EnergyVerkleProof H G, PathAlone S proof →
        verify S proof ((run H ops).rootHash S) = true →
          proof.value = (run H ops).get proof.key) ∧
      ((∀ proof : EnergyVerkleProof H G, verify S proof ((run H ops).rootHash S) = true →
          proof.value = (run H ops).get proof.key) ↔
        ∀ k k', ((run H ops).get k).isSome → ((run H ops).get k').isSome → k = k') := by
  obtain ⟨plain, h⟩ := exists_mirrors S ops
  have hget (key : Hash) : (run H ops).get key = plain.get key := h.represents.get (h.clear key)
  simp only [h.represents.rootHash, hget]
  refine ⟨fun proof halone => value_of_pathAlone hS halone, ?_⟩
  by_cases hinternal : ∃ children, plain.root = .internal children
  · obtain ⟨children, hroot⟩ := hinternal
    have hvalid : Verkle.Valid maxDepth (fun _ => True) (.internal children) := hroot ▸ h.valid
    obtain ⟨k, k', hne, -, -, hk, hk'⟩ := exists_two_keys hvalid
    have hsome (key : Hash) : plain.get key = getRecursive key maxDepth (.internal children) := by
      rw [VerkleTrie.get, hroot]
    constructor
    · -- the absence of a key that is there is accepted
      intro hsound
      have hforged := hsound (forgedAbsence S children k) (by
        rw [VerkleTrie.rootHash, hroot]
        exact verify_forgedAbsence hS.bytesToScalar_zero children k)
      rw [forgedAbsence, hsome] at hforged
      rw [← hforged] at hk
      cases hk
    · intro honly
      exact absurd (honly k k' (by rwa [hsome]) (by rwa [hsome])) hne
  · rw [not_exists] at hinternal
    constructor
    · intro _ k k' hk hk'
      exact subsingleton_of_not_internal hinternal hk hk'
    · intro _ proof hproof
      exact value_of_not_internal hS hinternal hproof

/-- A trie with one key. -/
def oneInsert : List Op := [.insert Hash.zero Hash.zero 1 1 1]

omit [DecidableEq H] in
lemma get_oneInsert (key : Hash) (h : ((run H oneInsert).get key).isSome) : Hash.zero = key := by
  simpa [oneInsert, run, Op.apply, get, insert, new, EnergyNode.insertRecursive, maxDepth,
    EnergyNode.getRecursive] using h

/-- Two keys that differ in their first byte. -/
def twoInserts : List Op :=
  [.insert Hash.zero Hash.zero 1 1 1, .insert (List.Vector.replicate 32 1) Hash.zero 1 1 1]

omit [DecidableEq H] in
lemma represents_twoInserts : Represents S (run H twoInserts) VerkleTrie.twoKeys := by
  have hclear := (clear_new (H := H) (List.Vector.replicate 32 1)).apply
    (.insert Hash.zero Hash.zero 1 1 1) (clear_new Hash.zero)
  exact (represents_new.insert (clear_new Hash.zero) Hash.zero 1 1 1).insert hclear Hash.zero 1 1 1

/-- The children of the root below which the two keys are. -/
def twoLeaves : UInt8 → Node :=
  Function.update (Function.update (fun _ => .empty) 0 (.leaf Hash.zero Hash.zero)) 1
    (.leaf (List.Vector.replicate 32 1) Hash.zero)

/-- The absence of a key that is there is accepted: its leaf is listed as a sibling of itself. -/
theorem energy_absence_forged :
    verify free
        { key := Hash.zero
          value := none
          depth := 1
          commitments := [0]
          pathIndices := [0]
          siblings := [[(0, free.leafHash Hash.zero Hash.zero),
            (1, free.leafHash (List.Vector.replicate 32 1) Hash.zero)]]
          energyPath := []
          hitCompressed := false }
        ((run ℕ twoInserts).rootHash free) = true ∧
      (run ℕ twoInserts).get Hash.zero = some Hash.zero := by
  refine ⟨?_, by decide +kernel⟩
  rw [represents_twoInserts.rootHash]
  exact verify_forgedAbsence (S := free) rfl twoLeaves Hash.zero

end Single

/-! ### Honest proofs -/

section Honest

variable {key : Hash} {left : ℕ} {e : EnergyNode H}

/-- The path of the key ends at an empty slot or at the leaf of the key. -/
def EndsAtKey (key : Hash) : ℕ → EnergyNode H → Prop
  | left + 1, .internal children _ => EndsAtKey key left (children (keyByte key left))
  | _, .empty => True
  | _, .leaf l => l.key = key
  | _, _ => False

/-- The loop follows the key, at most one level for each byte. -/
lemma proveLoop_path (key : Hash) (hleft : left ≤ maxDepth) (e : EnergyNode H) :
    (proveLoop S key left e).map (·.2.2.1) <+: key.toList.drop (maxDepth - left) := by
  induction e generalizing left with
  | internal children cached ih =>
    cases left with
    | zero => exact nil_prefix
    | succ left =>
      rw [drop_keyBytes key hleft, proveLoop, map_cons, cons_prefix_cons]
      exact ⟨rfl, ih _ (by omega)⟩
  | leaf l | compressed c | empty => cases left <;> exact nil_prefix

lemma occurs_hash (hhit : hitsCompressed key left e = false) : S.Occurs (e.hash S) := by
  cases e with
  | internal children cached => exact .inr (.inr ⟨_, rfl⟩)
  | leaf l => exact .inr (.inl ⟨_, _, rfl⟩)
  | compressed c => simp at hhit
  | empty => exact .inl rfl

/-- A level with the same siblings tells the hashes on the path apart. -/
lemma rebuildLevel_inj (hS : S.Ideal) {level : UInt8 × List (UInt8 × H)} {h h' : H}
    (hocc : S.Occurs h) (hocc' : S.Occurs h')
    (heq : VerkleTrie.rebuildLevel S level h = VerkleTrie.rebuildLevel S level h') : h = h' := by
  have hcommit := hS.internalHash_inj heq
  rw [commitList_eq_commit, commitList_eq_commit] at hcommit
  have hslot := congrFun (hS.binding hcommit) level.1
  rw [slot_cons, slot_cons, add_left_inj] at hslot
  simp only [if_true] at hslot
  exact hS.bytesToScalar_inj _ _ hocc hocc' hslot

/-- The levels of a path lead from what the verifier takes for its end to the node exactly if the
path ends there. -/
lemma rebuild_proveLoop_iff (hS : S.Ideal) (hhit : hitsCompressed key left e = false) :
    ((proveLoop S key left e).map (·.2.2)).foldr (VerkleTrie.rebuildLevel S)
      (S.endHash key (e.getRecursive key left)) = e.hash S ↔ EndsAtKey key left e := by
  induction e generalizing left with
  | internal children cached ih =>
    cases left with
    | zero => exact iff_of_false (hS.internalHash_ne_zero _).symm id
    | succ left =>
      have hchild : (children (keyByte key left)).isEmpty = true →
          S.bytesToScalar ((children (keyByte key left)).hash S) = 0 := by
        cases children (keyByte key left) <;>
          simp [EnergyNode.isEmpty, EnergyNode.hash, hS.bytesToScalar_zero]
      rw [EnergyNode.hash, ← VerkleTrie.rebuildLevel_children (EnergyNode.hash S) hchild, EndsAtKey,
        ← ih _ hhit]
      refine ⟨rebuildLevel_inj hS ?_ (occurs_hash hhit), congrArg _⟩
      exact occurs_rebuild (occurs_endHash _ _) _
  | leaf l =>
    by_cases hkey : l.key = key <;> cases left <;>
      simp [proveLoop, EndsAtKey, EnergyNode.getRecursive, EnergyNode.hash, endHash,
        hkey, (hS.leafHash_ne_zero _ _).symm]
  | compressed c => simp at hhit
  | empty => cases left <;> exact iff_of_true rfl trivial

variable [DecidableEq H] {trie : EnergyVerkleTrie H}

/-- Of an honest proof the verifier checks only that its levels lead to the root. -/
lemma verify_prove_iff (hS : S.Ideal) (hclear : trie.Clear key) :
    verify S (trie.prove S key) (trie.rootHash S) = true ↔ EndsAtKey key maxDepth trie.root := by
  rw [← rebuild_proveLoop_iff hS hclear]
  have hhit : (!(trie.prove S key).hitCompressed) = true := by
    have hkey : hitsCompressed key maxDepth trie.root = false := hclear
    simp [prove, hkey]
  unfold verify
  rw [hhit]
  refine VerkleTrie.checkPath_iff (S := S) (trie.prove S key).toVerkleProof
    ((proveLoop S key maxDepth trie.root).map (·.2.2))
    (by simp [prove]) (by simp [prove]) (by simp [prove]) (by simp [prove]) ?_ rfl
  simpa [prove, Function.comp_def] using proveLoop_path key le_rfl trie.root

omit [DecidableEq H] in
/-- Honest proofs list no sibling in the slot of the path. -/
lemma pathAlone_prove (trie : EnergyVerkleTrie H) : PathAlone S (trie.prove S key) := by
  have hloop : ∀ level ∈ (proveLoop S key maxDepth trie.root).map (·.2.2),
      slot (S.scalars level.2) level.1 = 0 := by
    generalize maxDepth = left, trie.root = e
    induction e generalizing left with
    | internal children cached ih =>
      cases left with
      | zero => simp [proveLoop]
      | succ left =>
        rw [proveLoop, map_cons, forall_mem_cons]
        refine ⟨VectorCommitment.slot_eq_zero ?_, ih _ left⟩
        simp only [scalars, List.mem_map, List.mem_filter]
        rintro _ ⟨_, ⟨i, ⟨-, hi⟩, rfl⟩, rfl⟩
        simpa using hi
    | leaf l | compressed c | empty => cases left <;> simp [proveLoop]
  simpa [PathAlone, prove, List.zip_map'] using hloop

theorem energy_verify_sound_twoInserts :
    PathAlone free ((run ℕ twoInserts).prove free Hash.zero) ∧
    verify free ((run ℕ twoInserts).prove free Hash.zero)
      ((run ℕ twoInserts).rootHash free) = true ∧
    ((run ℕ twoInserts).prove free Hash.zero).value = (run ℕ twoInserts).get Hash.zero ∧
    ∀ proof : EnergyVerkleProof ℕ (UInt8 → ℤ),
      verify free proof ((run ℕ oneInsert).rootHash free) = true →
        proof.value = (run ℕ oneInsert).get proof.key := by
  obtain ⟨plain, h⟩ := exists_mirrors free twoInserts
  have haccepted : verify free ((run ℕ twoInserts).prove free Hash.zero)
      ((run ℕ twoInserts).rootHash free) = true :=
    (verify_prove_iff free_ideal (h.clear _)).mpr (rfl : (Hash.zero : Hash) = Hash.zero)
  refine ⟨pathAlone_prove _, haccepted, (energy_verify_sound_iff free_ideal twoInserts).1 _
    (pathAlone_prove _) haccepted, ?_⟩
  apply (energy_verify_sound_iff free_ideal oneInsert).2.mpr
  intro k k' hk hk'
  exact (get_oneInsert k hk).symm.trans (get_oneInsert k' hk')

/-- The proof of a key is accepted exactly if its path ends at an empty slot or at the leaf of the
key; if it ends at the leaf of another key, the proof of absence does not mention that leaf. -/
theorem energy_prove_complete_iff (hS : S.Ideal) (ops : List Op) (key : Hash) :
    verify S ((run H ops).prove S key) ((run H ops).rootHash S) = true ↔
      EndsAtKey key maxDepth (run H ops).root := by
  obtain ⟨plain, h⟩ := exists_mirrors S ops
  exact verify_prove_iff hS (h.clear key)

theorem energy_prove_complete_twoInserts :
    EndsAtKey Hash.zero maxDepth (run ℕ twoInserts).root ∧
      verify free ((run ℕ twoInserts).prove free Hash.zero)
        ((run ℕ twoInserts).rootHash free) = true := by
  have hend : EndsAtKey Hash.zero maxDepth (run ℕ twoInserts).root :=
    (rfl : (Hash.zero : Hash) = Hash.zero)
  exact ⟨hend, (energy_prove_complete_iff free_ideal twoInserts Hash.zero).mpr hend⟩

/-- A key that is not there is next to the leaf of another key with the same first byte. -/
theorem energy_absence_rejected :
    (run ℕ twoInserts).get (0 ::ᵥ .replicate 31 1) = none ∧
      verify free
        ((run ℕ twoInserts).prove free (0 ::ᵥ .replicate 31 1))
        ((run ℕ twoInserts).rootHash free) = false := by
  obtain ⟨plain, h⟩ := exists_mirrors free twoInserts
  refine ⟨by decide +kernel, ?_⟩
  rw [← Bool.not_eq_true, verify_prove_iff free_ideal (h.clear _)]
  exact (by decide : (Hash.zero : Hash) ≠ 0 ::ᵥ .replicate 31 1)

end Honest

/-! ### Multiproofs -/

section Multi

variable {proof : EnergyVerkleMultiProof H} {left : ℕ} {indices : List ℕ} {path : List UInt8}

omit [Ring F] in
lemma mapM_children {r : UInt8 → Option H} {φ : H → F} {bytes : List UInt8} {ys : List (UInt8 × F)}
    (d : H) (h : (bytes.mapM fun byte => (r byte).bind fun c => some (byte, φ c)) = some ys) :
    (∀ byte ∈ bytes, r byte = some ((r byte).getD d)) ∧
      ys = bytes.map fun byte => (byte, φ ((r byte).getD d)) := by
  induction bytes generalizing ys with
  | nil =>
    cases h
    exact ⟨by simp, rfl⟩
  | cons byte bytes ih =>
    simp only [mapM_cons, bind_eq_bind, bind_eq_some_iff, Option.pure_def, Option.some.injEq] at h
    obtain ⟨_, ⟨c, hr, rfl⟩, zs, hrest, rfl⟩ := h
    obtain ⟨hsome, rfl⟩ := ih hrest
    exact ⟨forall_mem_cons.mpr ⟨by simp [hr], hsome⟩, by simp [hr]⟩

/-- What the reconstruction of a node has done: it ended there, or it went on by the bytes of all
its keys. -/
lemma reconstructMp_inv {h : H} (hrec : reconstructMp S proof left indices path = some h)
    (hne : indices ≠ []) :
    terminalHash S proof indices = some h ∨ ∃ (left' : ℕ) (child : UInt8 → H), left = left' + 1 ∧
        (∀ i ∈ indices, maxDepth - left < proof.depthAt i) ∧
        (∀ byte ∈ groupBytes proof left' indices,
          reconstructMp S proof left' (group proof left' indices byte) (path ++ [byte]) =
            some (child byte)) ∧
        h = S.internalHash (VectorCommitment.commitList S.generators
          (((groupBytes proof left' indices).map
            fun byte => (byte, S.bytesToScalar (child byte))) ++
            S.scalars ((proof.siblings path).getD []))) := by
  cases left with
  | zero =>
    rw [reconstructMp] at hrec
    simp only [List.isEmpty_iff, if_neg hne] at hrec
    split_ifs at hrec
    exact .inl hrec
  | succ left =>
    rw [reconstructMp] at hrec
    simp only [List.isEmpty_iff, if_neg hne] at hrec
    split_ifs at hrec with hterminal hmixed
    · exact .inl hrec
    · cases hchildren : (groupBytes proof left indices).mapM fun byte =>
          (reconstructMp S proof left (group proof left indices byte) (path ++ [byte])).bind
            fun c => some (byte, S.bytesToScalar c) with
      | none =>
        have hnone : (none : Option H) = some h := by
          simpa only [bind_eq_bind, Option.pure_def, hchildren, bind_none] using hrec
        cases hnone
      | some ys =>
        obtain ⟨hsome, rfl⟩ := mapM_children S.zero hchildren
        simp only [bind_eq_bind, Option.pure_def, hchildren, bind_some,
          Option.some.injEq] at hrec
        exact .inr ⟨left, _, rfl, by simpa using hmixed, hsome, hrec.symm⟩

omit [Ring F] [AddCommGroup G] [Module F G] in
/-- Keys end at an empty slot or at the leaf of the only one that has a value. -/
lemma terminalHash_inv {h : H} (hterminal : terminalHash S proof indices = some h) :
    (h = S.zero ∧ ∀ i ∈ indices, proof.valueAt i = none) ∨
      ∃ j ∈ indices, ∃ value, proof.valueAt j = some value ∧ h = S.leafHash (proof.keyAt j) value ∧
        ∀ i ∈ indices, i ≠ j → proof.valueAt i = none := by
  have hmem (i : ℕ) : i ∈ indices.filter (fun i => (proof.valueAt i).isSome) ↔
      i ∈ indices ∧ (proof.valueAt i).isSome := List.mem_filter
  unfold terminalHash at hterminal
  split at hterminal
  · rename_i hnone
    cases hterminal
    exact .inl ⟨rfl, fun i hi => by simpa [hnone, hi] using hmem i⟩
  · rename_i j hj
    cases hterminal
    simp only [hj, mem_singleton] at hmem
    obtain ⟨hjmem, hjsome⟩ := (hmem j).mp rfl
    obtain ⟨value, hvalue⟩ := Option.isSome_iff_exists.mp hjsome
    refine .inr ⟨j, hjmem, value, hvalue, by rw [hvalue, getD_some], fun i hi hne => ?_⟩
    simpa [hne, hi] using hmem i
  · cases hterminal

lemma occurs_reconstructMp {h : H} (hrec : reconstructMp S proof left indices path = some h)
    (hne : indices ≠ []) : S.Occurs h := by
  rcases reconstructMp_inv hrec hne with hterminal | ⟨left', child, -, -, -, rfl⟩
  · rcases terminalHash_inv hterminal with ⟨rfl, -⟩ | ⟨_, -, _, -, rfl, -⟩
    · exact .inl rfl
    · exact .inr (.inl ⟨_, _, rfl⟩)
  · exact .inr (.inr ⟨_, rfl⟩)

/-- No key is listed with two values, and on the path of a key, down to its depth, the siblings add
nothing in its slot. -/
structure PathsAlone (S : VerkleScheme H F G) (proof : EnergyVerkleMultiProof H) : Prop where
  keys : ∀ i < proof.keys.length, ∀ j < proof.keys.length,
    proof.keyAt i = proof.keyAt j → proof.valueAt i = proof.valueAt j
  siblings : ∀ i < proof.keys.length, ∀ left < maxDepth, maxDepth - (left + 1) < proof.depthAt i →
    slot (S.scalars
      ((proof.siblings ((proof.keyAt i).toList.take (maxDepth - (left + 1)))).getD []))
      (keyByte (proof.keyAt i) left) = 0

/-- Where the keys end, the node has the only value that is listed. -/
lemma getRecursive_of_terminalHash (hS : S.Ideal) (hproof : PathsAlone S proof) {n : Node}
    (hindices : ∀ i ∈ indices, i < proof.keys.length)
    (h : terminalHash S proof indices = some (nodeHash S n)) :
    ∀ i ∈ indices, getRecursive (proof.keyAt i) left n = proof.valueAt i := by
  intro i hi
  rcases terminalHash_inv h with ⟨hzero, hnone⟩ | ⟨j, hj, value, hvalue, hleaf, hother⟩
  · rw [hnone i hi]
    exact getRecursive_of_endHash hS left hzero
  · rw [eq_leaf_of_hash hS hleaf, getRecursive_leaf]
    split_ifs with hkey
    · rw [hproof.keys i (hindices i hi) j (hindices j hj) hkey.symm, hvalue]
    · exact (hother i hi fun hij => hkey (by rw [hij])).symm

lemma take_keyBytes (key : Hash) {left : ℕ} (hleft : left < maxDepth) :
    key.toList.take (maxDepth - left) =
      key.toList.take (maxDepth - (left + 1)) ++ [keyByte key left] := by
  have hsucc : maxDepth - left = maxDepth - (left + 1) + 1 := by omega
  rw [hsucc, take_add, drop_keyBytes key hleft]
  rfl

/-- A multiproof with its paths alone in their slots ends, for each of its keys, at what the node
has for it. -/
lemma getRecursive_of_reconstructMp (hS : S.Ideal) (hproof : PathsAlone S proof) {n : Node}
    (hleft : left ≤ maxDepth) (hindices : ∀ i ∈ indices, i < proof.keys.length)
    (hpath : ∀ i ∈ indices, path = (proof.keyAt i).toList.take (maxDepth - left))
    (h : reconstructMp S proof left indices path = some (nodeHash S n)) :
    ∀ i ∈ indices, getRecursive (proof.keyAt i) left n = proof.valueAt i := by
  induction left generalizing n indices path with
  | zero =>
    intro i hi
    rcases reconstructMp_inv h (ne_nil_of_mem hi) with hterminal | ⟨left', -, hleft', -⟩
    · exact getRecursive_of_terminalHash hS hproof hindices hterminal i hi
    · cases hleft'
  | succ left ih =>
    intro i hi
    rcases reconstructMp_inv h (ne_nil_of_mem hi) with
      hterminal | ⟨left', child, hleft', hdepths, hchildren, hhash⟩
    · exact getRecursive_of_terminalHash hS hproof hindices hterminal i hi
    · cases hleft'
      obtain ⟨children, rfl, hcommit⟩ := eq_internal_of_hash hS hhash
      have hbyte : keyByte (proof.keyAt i) left ∈ groupBytes proof left indices := by
        refine List.mem_filter.mpr ⟨mem_allBytes _, ?_⟩
        rw [List.any_eq_true]
        exact ⟨i, hi, beq_self_eq_true _⟩
      have hslot := hS.binding.slot_eq hcommit (keyByte (proof.keyAt i) left)
      have halone := hproof.siblings i (hindices i hi) left hleft (hdepths i hi)
      have hnodup : (groupBytes proof left indices).Nodup := nodup_allBytes.filter _
      rw [bytesToScalar_child hS, slot_append,
        slot_map hnodup fun byte => S.bytesToScalar (child byte),
        if_pos hbyte, hpath i hi, halone, add_zero] at hslot
      have hmem : i ∈ group proof left indices (keyByte (proof.keyAt i) left) :=
        List.mem_filter.mpr ⟨hi, beq_self_eq_true _⟩
      have hchild := hchildren _ hbyte
      have hnode := hS.bytesToScalar_inj _ _ (occurs_nodeHash _) (occurs_reconstructMp hchild
        (ne_nil_of_mem hmem)) hslot
      refine ih (by omega) ?_ ?_ (hnode ▸ hchild) i hmem
      · intro j hj
        exact hindices j (List.mem_filter.mp hj).1
      · intro j hj
        obtain ⟨hj, hjbyte⟩ := List.mem_filter.mp hj
        rw [take_keyBytes _ hleft, ← hpath j hj, beq_iff_eq.mp hjbyte]

/-! ### Forged multiproofs -/

/-- A key listed with its value and without. -/
def doubledKey (key value : Hash) : EnergyVerkleMultiProof H where
  keys := [key, key]
  values := [some value, none]
  depths := [0, 0]
  siblings := fun _ => none

/-- A claim that the key is absent, with all children of the root as siblings. -/
def forgedMultiAbsence (S : VerkleScheme H F G) (children : UInt8 → Node) (key : Hash) :
    EnergyVerkleMultiProof H where
  keys := [key]
  values := [none]
  depths := [1]
  siblings := fun path =>
    if path = [] then
      some ((present Node.isEmpty children).map fun i => (i, nodeHash S (children i)))
    else none

variable [DecidableEq H]

lemma verifyMulti_doubledKey (key value : Hash) :
    verifyMulti S (doubledKey key value) (S.leafHash key value) = true := by
  have hrec : reconstructMp S (doubledKey key value) maxDepth [0, 1] [] =
      some (S.leafHash key value) := by
    rfl
  have hrange : List.range 2 = [0, 1] := rfl
  simpa [verifyMulti, doubledKey, hrange] using hrec

lemma verifyMulti_forgedMultiAbsence (hzero : S.bytesToScalar S.zero = 0)
    (children : UInt8 → Node) (key : Hash) :
    verifyMulti S (forgedMultiAbsence S children key) (nodeHash S (.internal children)) = true := by
  have hbytes : groupBytes (forgedMultiAbsence S children key) 31 [0] = [keyByte key 31] := by
    simp [groupBytes, forgedMultiAbsence, EnergyVerkleMultiProof.keyAt, filter_allBytes]
  have hgroup : group (forgedMultiAbsence S children key) 31 [0] (keyByte key 31) = [0] := by
    simp [group, forgedMultiAbsence, EnergyVerkleMultiProof.keyAt]
  have hchild : reconstructMp S (forgedMultiAbsence S children key) 31 [0] [keyByte key 31] =
      some S.zero := by
    rfl
  have hrec : reconstructMp S (forgedMultiAbsence S children key) 32 [0] [] =
      some (nodeHash S (.internal children)) := by
    rw [← commitList_children hzero children (keyByte key 31), reconstructMp]
    rw [hbytes]
    simp only [mapM_cons, mapM_nil, hgroup, nil_append, hchild]
    rfl
  simpa [verifyMulti, forgedMultiAbsence, maxDepth] using hrec

omit [DecidableEq H] in
lemma PathsAlone.value (hS : S.Ideal) (hproof : PathsAlone S proof) {n : Node}
    (h : reconstructMp S proof maxDepth (List.range proof.keys.length) [] = some (nodeHash S n))
    {i : ℕ} (hi : i < proof.keys.length) :
    proof.valueAt i = getRecursive (proof.keyAt i) maxDepth n := by
  refine (getRecursive_of_reconstructMp hS hproof le_rfl ?_ ?_ h i (List.mem_range.mpr hi)).symm
  · intro j hj
    exact List.mem_range.mp hj
  · intro j _
    simp

/-- What the verifier of a multiproof with keys has checked. -/
lemma verifyMulti_inv {root : H} (h : verifyMulti S proof root = true) {i : ℕ}
    (hi : i < proof.keys.length) :
    reconstructMp S proof maxDepth (List.range proof.keys.length) [] = some root := by
  have hne : proof.keys ≠ [] := ne_nil_of_length_pos (by omega)
  unfold verifyMulti at h
  rw [if_neg (by simpa using hne)] at h
  split_ifs at h
  exact beq_iff_eq.mp h

/-- Only absent keys are accepted against the root of an empty trie. -/
lemma valueAt_of_empty (hS : S.Ideal) (h : verifyMulti S proof S.zero = true) {i : ℕ}
    (hi : i < proof.keys.length) : proof.valueAt i = none := by
  have hmem : i ∈ List.range proof.keys.length := List.mem_range.mpr hi
  rcases reconstructMp_inv (verifyMulti_inv h hi) (ne_nil_of_mem hmem) with
    hterminal | ⟨_, _, -, -, -, hhash⟩
  · rcases terminalHash_inv hterminal with ⟨-, hnone⟩ | ⟨_, -, _, -, hleaf, -⟩
    · exact hnone i hmem
    · exact absurd hleaf.symm (hS.leafHash_ne_zero _ _)
  · exact absurd hhash.symm (hS.internalHash_ne_zero _)

/-- Accepted multiproofs are right if no key is listed with two values and the siblings add nothing
in the slots of the paths. For all multiproofs this holds only if the trie is empty. -/
theorem energy_verifyMulti_sound_iff (hS : S.Ideal) (ops : List Op) :
    (∀ proof : EnergyVerkleMultiProof H, PathsAlone S proof →
        verifyMulti S proof ((run H ops).rootHash S) = true →
          ∀ i < proof.keys.length, proof.valueAt i = (run H ops).get (proof.keyAt i)) ∧
      ((∀ proof : EnergyVerkleMultiProof H, verifyMulti S proof ((run H ops).rootHash S) = true →
            ∀ i < proof.keys.length, proof.valueAt i = (run H ops).get (proof.keyAt i)) ↔
        ∀ key, (run H ops).get key = none) := by
  obtain ⟨plain, h⟩ := exists_mirrors S ops
  have hget (key : Hash) : (run H ops).get key = plain.get key := h.represents.get (h.clear key)
  simp only [h.represents.rootHash, hget]
  refine ⟨?_, ?_, ?_⟩
  · intro proof hproof haccepted i hi
    exact hproof.value hS (verifyMulti_inv haccepted hi) hi
  · intro hsound key
    cases hroot : plain.root with
    | empty => rw [VerkleTrie.get, hroot, getRecursive_empty]
    | leaf k value =>
      have haccepted : verifyMulti S (doubledKey k value) (plain.rootHash S) = true := by
        rw [VerkleTrie.rootHash, hroot]
        exact verifyMulti_doubledKey k value
      have hvalue : (none : Option Hash) = plain.get k :=
        hsound _ haccepted 1 (by simp [doubledKey])
      rw [VerkleTrie.get, hroot, getRecursive_leaf, if_pos rfl] at hvalue
      cases hvalue
    | internal children =>
      obtain ⟨k, -, hk⟩ := exists_key h.valid (by rw [hroot]; rfl)
      have haccepted : verifyMulti S (forgedMultiAbsence S children k)
          (plain.rootHash S) = true := by
        rw [VerkleTrie.rootHash, hroot]
        exact verifyMulti_forgedMultiAbsence hS.bytesToScalar_zero children k
      have hvalue : (none : Option Hash) = plain.get k :=
        hsound _ haccepted 0 (by simp [forgedMultiAbsence])
      rw [VerkleTrie.get] at hvalue
      rw [← hvalue] at hk
      cases hk
  · intro hnone proof haccepted i hi
    have hroot : plain.root = .empty := by
      rw [← Node.isEmpty_iff]
      by_contra hne
      obtain ⟨k, -, hk⟩ := exists_key h.valid (Bool.not_eq_true _ ▸ hne)
      have hk' : (plain.get k).isSome := hk
      rw [hnone k] at hk'
      cases hk'
    rw [VerkleTrie.rootHash, hroot] at haccepted
    rw [hnone, valueAt_of_empty hS haccepted hi]

/-- Both keys of a trie, without siblings. -/
def bothKeys : EnergyVerkleMultiProof ℕ where
  keys := [Hash.zero, .replicate 32 1]
  values := [some Hash.zero, some Hash.zero]
  depths := [1, 1]
  siblings := fun _ => none

lemma verifyMulti_bothKeys :
    verifyMulti free bothKeys ((run ℕ twoInserts).rootHash free) = true := by
  have hrebuilt : reconstructMp free bothKeys maxDepth [0, 1] [] =
      some (free.internalHash (VectorCommitment.commitList free.generators
        [(0, free.bytesToScalar (free.leafHash Hash.zero Hash.zero)),
          (1, free.bytesToScalar (free.leafHash (.replicate 32 1) Hash.zero))])) := by
    rfl
  have hroot : VerkleTrie.twoKeys.rootHash free = nodeHash free (.internal twoLeaves) := rfl
  have hrec : reconstructMp free bothKeys maxDepth (List.range bothKeys.keys.length) [] = _ :=
    hrebuilt
  rw [represents_twoInserts.rootHash, hroot, nodeHash_internal, commitInternal]
  unfold verifyMulti
  rw [hrec, commitList_eq_commit]
  refine beq_iff_eq.mpr (congrArg some (congrArg _ (congrArg _ (funext fun idx => ?_))))
  by_cases h₁ : idx = 1
  · simp [h₁, twoLeaves, slot, Node.isEmpty, nodeHash]
  · by_cases h₀ : idx = 0
    · simp [h₀, twoLeaves, slot, Node.isEmpty, nodeHash]
    · simp [h₀, h₁, twoLeaves, Ne.symm h₀, Ne.symm h₁, slot, Node.isEmpty]

theorem energy_verifyMulti_sound_bothKeys :
    (PathsAlone free bothKeys ∧
      verifyMulti free bothKeys ((run ℕ twoInserts).rootHash free) = true ∧
      ∀ i < 2, bothKeys.valueAt i = (run ℕ twoInserts).get (bothKeys.keyAt i)) ∧
    ∀ proof : EnergyVerkleMultiProof ℕ, verifyMulti free proof ((run ℕ []).rootHash free) = true →
      ∀ i < proof.keys.length, proof.valueAt i = (run ℕ []).get (proof.keyAt i) := by
  have halone : PathsAlone free bothKeys := ⟨by decide, fun _ _ _ _ _ => rfl⟩
  exact ⟨⟨halone, verifyMulti_bothKeys, (energy_verifyMulti_sound_iff free_ideal twoInserts).1 _
    halone verifyMulti_bothKeys⟩, (energy_verifyMulti_sound_iff free_ideal []).2.mpr fun _ => rfl⟩

/-- The absence of a key that is there is accepted, and so is a list that has one key with its
value and without. -/
theorem energy_multi_forged :
    (verifyMulti free
        { keys := [Hash.zero]
          values := [none]
          depths := [1]
          siblings := fun path => if path = [] then
            some [(0, free.leafHash Hash.zero Hash.zero),
              (1, free.leafHash (List.Vector.replicate 32 1) Hash.zero)] else none }
        ((run ℕ twoInserts).rootHash free) = true ∧
      (run ℕ twoInserts).get Hash.zero = some Hash.zero) ∧
    verifyMulti free
        { keys := [Hash.zero, Hash.zero]
          values := [some Hash.zero, none]
          depths := [0, 0]
          siblings := fun _ => none }
        ((run ℕ oneInsert).rootHash free) = true ∧
      (run ℕ oneInsert).get Hash.zero = some Hash.zero := by
  refine ⟨⟨?_, by decide +kernel⟩, verifyMulti_doubledKey Hash.zero Hash.zero, by decide +kernel⟩
  rw [represents_twoInserts.rootHash]
  exact verifyMulti_forgedMultiAbsence (S := free) rfl twoLeaves Hash.zero

end Multi

end EnergyVerkleTrie

end EvaporChain
