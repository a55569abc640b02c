import EvaporChain.Crypto.VerkleMap

/-!
# Soundness of Verkle proofs

A proof is checked by rebuilding the commitments of its path from the bottom to the top. If hashes
do not collide and commitments are binding, a level that adds nothing else in the slot of the path
can be rebuilt only from the hash of the child that is there.
-/

namespace EvaporChain

open Core VerkleScheme List
open VectorCommitment (slot slot_cons slot_eq_zero slot_map commitList_eq_commit)

variable {H F G : Type} [Ring F] [AddCommGroup G] [Module F G]

/-! ### Ideal hashes and commitments -/

namespace VerkleScheme

variable (S : VerkleScheme H F G)

/-- The hashes of nodes. -/
def Occurs (h : H) : Prop :=
  h = S.zero ∨ (∃ key value, h = S.leafHash key value) ∨ ∃ c, h = S.internalHash c

/-- Tagged hashes do not collide, reading a hash as a scalar loses nothing, and a commitment fixes
the sum of the scalars at each index. -/
structure Ideal : Prop where
  leafHash_inj : ∀ {k v k' v'}, S.leafHash k v = S.leafHash k' v' → k = k' ∧ v = v'
  internalHash_inj : Function.Injective S.internalHash
  leafHash_ne_internalHash : ∀ k v c, S.leafHash k v ≠ S.internalHash c
  leafHash_ne_zero : ∀ k v, S.leafHash k v ≠ S.zero
  internalHash_ne_zero : ∀ c, S.internalHash c ≠ S.zero
  bytesToScalar_zero : S.bytesToScalar S.zero = 0
  bytesToScalar_inj : ∀ h h', S.Occurs h → S.Occurs h' →
    S.bytesToScalar h = S.bytesToScalar h' → h = h'
  binding : VectorCommitment.Binding F S.generators

/-- The hash at the end of a path: of a leaf, or of an empty node if there is no value. -/
def endHash (key : Hash) : Option Hash → H
  | some value => S.leafHash key value
  | none => S.zero

/-- The scalars of siblings with their indices. -/
def scalars (siblings : List (UInt8 × H)) : List (UInt8 × F) :=
  siblings.map fun sibling => (sibling.1, S.bytesToScalar sibling.2)

variable {S}

omit [Ring F] [AddCommGroup G] [Module F G] in
lemma occurs_endHash (key : Hash) (value : Option Hash) : S.Occurs (S.endHash key value) := by
  cases value with
  | none => exact .inl rfl
  | some value => exact .inr (.inl ⟨key, value, rfl⟩)

lemma occurs_rebuild {h : H} (hocc : S.Occurs h) (levels : List (UInt8 × List (UInt8 × H))) :
    S.Occurs (levels.foldr (VerkleTrie.rebuildLevel S) h) := by
  cases levels with
  | nil => exact hocc
  | cons level rest => exact .inr (.inr ⟨_, rfl⟩)

omit [AddCommGroup G] [Module F G] in
lemma slot_scalars {siblings : List (UInt8 × H)} {idx : UInt8}
    (h : ∀ sibling ∈ siblings, sibling.1 ≠ idx) : slot (S.scalars siblings) idx = 0 := by
  apply slot_eq_zero
  intro x hx
  obtain ⟨sibling, hmem, rfl⟩ := List.mem_map.mp hx
  exact h sibling hmem

end VerkleScheme

/-! ### A scheme without collisions -/

/-- A number for each element of a countable type. -/
noncomputable def VerkleScheme.code (α : Type) [Countable α] : α → ℕ :=
  (exists_injective_nat α).choose

lemma VerkleScheme.code_injective (α : Type) [Countable α] : Function.Injective (code α) :=
  (exists_injective_nat α).choose_spec

instance : Countable Hash := inferInstanceAs (Countable { l : List UInt8 // l.length = 32 })

/-- Hashes number their inputs, odd for leaves and even for internal nodes; a commitment is the
vector itself. -/
noncomputable def VerkleScheme.free : VerkleScheme ℕ ℤ (UInt8 → ℤ) where
  zero := 0
  leafHash key value := 2 * code (Hash × Hash) (key, value) + 1
  internalHash c := 2 * code (UInt8 → ℤ) c + 2
  bytesToScalar h := h
  generators i := Pi.single i 1

lemma VerkleScheme.free_ideal : free.Ideal where
  leafHash_inj := by
    intro k v k' v' h
    have hcode : code (Hash × Hash) (k, v) = code (Hash × Hash) (k', v') := by
      simp only [free] at h
      omega
    simpa using code_injective _ hcode
  internalHash_inj := by
    intro c c' h
    apply code_injective
    simp only [free] at h
    omega
  leafHash_ne_internalHash := by
    intro k v c h
    simp only [free] at h
    omega
  leafHash_ne_zero := by simp [free]
  internalHash_ne_zero := by simp [free]
  bytesToScalar_zero := rfl
  bytesToScalar_inj := by
    intro h h' _ _ heq
    exact Int.ofNat_inj.mp heq
  binding := VectorCommitment.binding_single

namespace Verkle

variable {S : VerkleScheme H F G}

lemma nodeHash_internal (children : UInt8 → Node) :
    nodeHash S (.internal children) = S.internalHash (commitInternal S children) := rfl

lemma occurs_nodeHash (n : Node) : S.Occurs (nodeHash S n) := by
  cases n with
  | empty => exact .inl rfl
  | leaf key value => exact .inr (.inl ⟨key, value, rfl⟩)
  | internal children => exact .inr (.inr ⟨_, rfl⟩)

/-! ### What a hash says about its node -/

section Ideal

variable (hS : S.Ideal)

include hS

variable {n : Node}

lemma eq_internal_of_hash {c : G} (h : nodeHash S n = S.internalHash c) :
    ∃ children, n = .internal children ∧ commitInternal S children = c := by
  cases n with
  | empty => exact absurd h.symm (hS.internalHash_ne_zero c)
  | leaf key value => exact absurd h (hS.leafHash_ne_internalHash key value c)
  | internal children => exact ⟨children, rfl, hS.internalHash_inj h⟩

lemma eq_leaf_of_hash {key value : Hash} (h : nodeHash S n = S.leafHash key value) :
    n = .leaf key value := by
  cases n with
  | empty => exact absurd h.symm (hS.leafHash_ne_zero key value)
  | leaf key' value' =>
    obtain ⟨rfl, rfl⟩ := hS.leafHash_inj h
    rfl
  | internal children => exact absurd h.symm (hS.leafHash_ne_internalHash key value _)

lemma eq_empty_of_hash (h : nodeHash S n = S.zero) : n = .empty := by
  cases n with
  | empty => rfl
  | leaf key value => exact absurd h (hS.leafHash_ne_zero key value)
  | internal children => exact absurd h (hS.internalHash_ne_zero _)

/-- The end of a path is what the node has for the key. -/
lemma getRecursive_of_endHash {key : Hash} {value : Option Hash} (left : ℕ)
    (h : nodeHash S n = S.endHash key value) : getRecursive key left n = value := by
  cases value with
  | none => rw [eq_empty_of_hash hS h, getRecursive_empty]
  | some value => rw [eq_leaf_of_hash hS h, getRecursive_leaf, if_pos rfl]

/-- An empty child counts as a scalar of zero. -/
lemma bytesToScalar_child (children : UInt8 → Node) (idx : UInt8) :
    (if (children idx).isEmpty then 0 else S.bytesToScalar (nodeHash S (children idx))) =
      S.bytesToScalar (nodeHash S (children idx)) := by
  split_ifs with hempty
  · rw [Node.isEmpty_iff.mp hempty]
    exact hS.bytesToScalar_zero.symm
  · rfl

/-- A hash determines its node. -/
lemma nodeHash_injective {n m : Node} (h : nodeHash S n = nodeHash S m) : n = m := by
  induction n generalizing m with
  | empty => exact (eq_empty_of_hash hS h.symm).symm
  | leaf key value => exact (eq_leaf_of_hash hS h.symm).symm
  | internal children ih =>
    obtain ⟨children', rfl, hcommit⟩ := eq_internal_of_hash hS h.symm
    have hscalars := congrFun (hS.binding hcommit)
    congr 1
    funext i
    apply ih i
    have hscalar := hscalars i
    rw [bytesToScalar_child hS, bytesToScalar_child hS] at hscalar
    exact (hS.bytesToScalar_inj _ _ (occurs_nodeHash _) (occurs_nodeHash _) hscalar).symm

/-- One level: the child on the path, together with what else is in its slot, adds up to the child
that is there. -/
lemma rebuildLevel_inv {idx : UInt8} {siblings : List (UInt8 × H)} {current : H}
    (h : nodeHash S n = VerkleTrie.rebuildLevel S (idx, siblings) current) :
    ∃ children, n = .internal children ∧ S.bytesToScalar (nodeHash S (children idx)) =
        S.bytesToScalar current + slot (S.scalars siblings) idx := by
  obtain ⟨children, rfl, hcommit⟩ := eq_internal_of_hash hS h
  refine ⟨children, rfl, ?_⟩
  have hslot := hS.binding.slot_eq hcommit idx
  rwa [bytesToScalar_child hS, slot_cons, if_pos rfl] at hslot

end Ideal

/-! ### Paths -/

lemma drop_keyBytes (key : Hash) {left : ℕ} (hleft : left < maxDepth) :
    key.toList.drop (maxDepth - (left + 1)) =
      keyByte key left :: key.toList.drop (maxDepth - left) := by
  have hlength : key.toList.length = maxDepth := key.2
  have hlt : maxDepth - (left + 1) < key.toList.length := by omega
  have hsub : maxDepth - 1 - left = maxDepth - (left + 1) := by omega
  have hsucc : maxDepth - (left + 1) + 1 = maxDepth - left := by omega
  rw [drop_eq_getElem_cons hlt, hsucc, keyByte, hsub, getD_eq_getElem _ _ hlt]

/-- A path that follows the key and has nothing but the path child in its slots ends at what the
node has for the key. -/
lemma getRecursive_of_rebuild (hS : S.Ideal) {key : Hash} {value : Option Hash}
    {levels : List (UInt8 × List (UInt8 × H))} {left : ℕ} {n : Node} (hleft : left ≤ maxDepth)
    (hpath : levels.map (·.1) <+: key.toList.drop (maxDepth - left))
    (hclean : ∀ level ∈ levels, slot (S.scalars level.2) level.1 = 0)
    (h : nodeHash S n = levels.foldr (VerkleTrie.rebuildLevel S) (S.endHash key value)) :
    getRecursive key left n = value := by
  induction levels generalizing left n with
  | nil => exact getRecursive_of_endHash hS left h
  | cons level rest ih =>
    obtain ⟨children, rfl, hscalar⟩ := rebuildLevel_inv hS h
    rw [hclean level (.head _), add_zero] at hscalar
    cases left with
    | zero =>
      have hnil : key.toList.drop (maxDepth - 0) = [] := drop_of_length_le key.2.le
      rw [hnil] at hpath
      simp at hpath
    | succ left =>
      rw [drop_keyBytes key hleft, map_cons, cons_prefix_cons] at hpath
      rw [getRecursive_internal, ← hpath.1]
      refine ih (by omega) hpath.2 (fun l hl => hclean l (.tail _ hl)) ?_
      exact hS.bytesToScalar_inj _ _ (occurs_nodeHash _)
        (occurs_rebuild (occurs_endHash key value) rest) hscalar

/-- The check of a path against the bytes of a key. -/
lemma all_range_iff_take {path key : List UInt8} {depth : ℕ} (hlength : path.length = depth) :
    ((List.range depth).all fun level => path[level]? == key[level]?) = true ↔ path <+: key := by
  subst hlength
  simp only [all_eq_true, mem_range, beq_iff_eq, prefix_iff_getElem?]
  exact forall₂_congr fun i hi => by rw [List.getElem?_eq_getElem hi, eq_comm]

end Verkle

open Verkle

namespace VerkleTrie

variable {S : VerkleScheme H F G} [DecidableEq H]

/-- What both verifiers have checked: a path of levels that follows the key rebuilds the root. -/
lemma checkPath_inv {proof : VerkleProof H G} {bare levelled : Bool} {root : H}
    (h : checkPath S proof bare levelled root = true) :
    ∃ levels : List (UInt8 × List (UInt8 × H)), levels.map (·.1) <+: proof.key.toList ∧
      (∀ level ∈ levels, levelled = true ∧ level ∈ proof.pathIndices.zip proof.siblings) ∧
      levels.foldr (rebuildLevel S) (S.endHash proof.key proof.value) = root := by
  unfold checkPath at h
  split_ifs at h with hmax hzero hbare hlengths hbound hlevelled
  · -- no level: the node at the root is the end of the path
    refine ⟨[], nil_prefix, by simp, ?_⟩
    cases hvalue : proof.value <;> simp_all [endHash]
  · simp only [not_or, not_not] at hlengths
    obtain ⟨-, hpath, hlevels⟩ := hlengths
    simp only [Bool.not_eq_true', Bool.not_eq_false] at hbound hlevelled
    refine ⟨proof.pathIndices.zip proof.siblings, ?_, fun _ hlevel => ⟨hlevelled, hlevel⟩, ?_⟩
    · rw [map_fst_zip (by omega)]
      exact (all_range_iff_take hpath).mp hbound
    · cases hvalue : proof.value <;> simp only [hvalue] at h <;> exact beq_iff_eq.mp h

/-- A proof made of levels that follow the key is accepted if they rebuild the root. -/
lemma checkPath_iff (proof : VerkleProof H G) {levelled : Bool} {root : H}
    (levels : List (UInt8 × List (UInt8 × H))) (hdepth : proof.depth = levels.length)
    (hcommitments : proof.commitments.length = levels.length)
    (hindices : proof.pathIndices = levels.map (·.1))
    (hsiblings : proof.siblings = levels.map (·.2))
    (hpath : levels.map (·.1) <+: proof.key.toList) (hlevelled : levelled = true) :
    checkPath S proof true levelled root = true ↔
      levels.foldr (rebuildLevel S) (S.endHash proof.key proof.value) = root := by
  have hlength : levels.length ≤ maxDepth := by
    have hle := hpath.length_le
    rw [length_map] at hle
    exact hle.trans proof.key.2.le
  have hbound : pathBound proof = true := by
    unfold pathBound
    rw [hindices, hdepth]
    exact (all_range_iff_take (by simp)).mpr hpath
  have hzip : proof.pathIndices.zip proof.siblings = levels := by
    rw [hindices, hsiblings, List.zip_map']
    exact map_id _
  unfold checkPath rebuild
  rw [hbound, hlevelled, hzip, hcommitments, hindices, hsiblings, hdepth, if_neg (by omega)]
  by_cases hzero : levels.length = 0
  · rw [if_pos hzero, List.length_eq_zero_iff.mp hzero]
    cases proof.value with
    | none => exact beq_iff_eq.trans eq_comm
    | some value => exact beq_iff_eq
  · rw [if_neg hzero, if_neg (by simp)]
    cases proof.value <;> exact beq_iff_eq

/-! ### Honest proofs -/

omit [DecidableEq H] in
/-- The children but one as siblings of that one. -/
lemma rebuildLevel_children {α : Type} (hash : α → H) {isEmpty : α → Bool} {children : UInt8 → α}
    {idx : UInt8}
    (hchild : isEmpty (children idx) = true → S.bytesToScalar (hash (children idx)) = 0) :
    rebuildLevel S (idx, ((present isEmpty children).filter (· ≠ idx)).map fun i =>
        (i, hash (children i))) (hash (children idx)) =
      S.internalHash (VectorCommitment.commit S.generators fun i =>
        if isEmpty (children i) then 0 else S.bytesToScalar (hash (children i))) := by
  have hnodup : ((present isEmpty children).filter (· ≠ idx)).Nodup := nodup_present.filter _
  rw [rebuildLevel, commitList_eq_commit]
  congr 2
  funext i
  rw [slot_cons, map_map, Function.comp_def,
    slot_map hnodup fun i => S.bytesToScalar (hash (children i))]
  by_cases hi : idx = i
  · subst hi
    cases hempty : isEmpty (children idx) <;> simp [hchild, hempty]
  · cases hempty : isEmpty (children i) <;> simp [hi, Ne.symm hi, mem_present, hempty]

omit [DecidableEq H] in
lemma rebuild_proveLoop {key value : Hash} {left : ℕ} {n : Node}
    (h : getRecursive key left n = some value) :
    ((proveLoop S key left n).map (·.2)).foldr (rebuildLevel S) (S.leafHash key value) =
      nodeHash S n := by
  induction n generalizing left with
  | empty => simp at h
  | leaf key' value' =>
    rw [getRecursive_leaf] at h
    split_ifs at h with heq
    cases h
    subst heq
    cases left <;> rfl
  | internal children ih =>
    cases left with
    | zero => cases h
    | succ left =>
      have hchild : (children (keyByte key left)).isEmpty = false := by
        rw [← Bool.not_eq_true, Node.isEmpty_iff]
        intro hempty
        simp [hempty] at h
      have hlevel := rebuildLevel_children (S := S) (nodeHash S) fun hempty =>
        absurd hempty (Bool.eq_false_iff.mp hchild)
      rw [nodeHash_internal, commitInternal, ← hlevel, ← ih _ h]
      rfl

omit [DecidableEq H] in
/-- The loop follows the key, at most one level for each byte. -/
lemma proveLoop_path (key : Hash) {left : ℕ} (hleft : left ≤ maxDepth) (n : Node) :
    (proveLoop S key left n).map (·.2.1) <+: key.toList.drop (maxDepth - left) := by
  induction n generalizing left with
  | empty | leaf key' value' => cases left <;> exact nil_prefix
  | internal children ih =>
    cases left with
    | zero => exact nil_prefix
    | succ left =>
      rw [drop_keyBytes key hleft, proveLoop, map_cons, cons_prefix_cons]
      exact ⟨rfl, ih _ (by omega)⟩

omit [DecidableEq H] in
lemma proveLoop_siblings {key : Hash} {left : ℕ} {n : Node} :
    ∀ level ∈ proveLoop S key left n, (level.2.2.map (·.1)).Nodup ∧
      level.2.1 ∉ level.2.2.map (·.1) := by
  induction n generalizing left with
  | empty | leaf key' value' => cases left <;> simp [proveLoop]
  | internal children ih =>
    cases left with
    | zero => simp [proveLoop]
    | succ left =>
      rw [proveLoop, forall_mem_cons]
      refine ⟨?_, ih _⟩
      have hmap : ((present Node.isEmpty children).filter (· ≠ keyByte key left)).map
          ((·.1) ∘ fun i => (i, nodeHash S (children i))) =
          (present Node.isEmpty children).filter (· ≠ keyByte key left) := map_id _
      rw [map_map, hmap]
      exact ⟨nodup_present.filter _, by simp⟩

/-- The proof of a key that is there is accepted. -/
theorem verify_prove {trie : VerkleTrie} {key value : Hash} (h : trie.get key = some value) :
    verify S (trie.prove S key) (trie.rootHash S) = true := by
  refine (checkPath_iff _ ((proveLoop S key maxDepth trie.root).map (·.2)) (by simp [prove])
    (by simp [prove]) (by simp [prove]) (by simp [prove]) ?_ ?_).mpr ?_
  · simpa [prove, Function.comp_def] using proveLoop_path key le_rfl trie.root
  · apply List.all_eq_true.mpr
    intro level hlevel
    rw [prove, List.zip_map'] at hlevel
    obtain ⟨level', hlevel', rfl⟩ := List.mem_map.mp hlevel
    obtain ⟨hnodup, hnotin⟩ := proveLoop_siblings level' hlevel'
    simp only [Bool.and_eq_true, decide_eq_true_eq, all_eq_true, bne_iff_ne]
    exact ⟨fun i hi heq => hnotin (heq ▸ hi), hnodup⟩
  · simp only [prove, h]
    exact rebuild_proveLoop h

/-! ### Soundness -/

/-- An accepted proof shows the value that the trie has for the key, or that it has none. -/
theorem verkle_verify_sound (hS : S.Ideal) (trie : VerkleTrie) (proof : VerkleProof H G)
    (h : verify S proof (trie.rootHash S) = true) : proof.value = trie.get proof.key := by
  obtain ⟨levels, hpath, hlevels, hroot⟩ := checkPath_inv h
  refine (getRecursive_of_rebuild hS le_rfl ?_ ?_ hroot.symm).symm
  · simpa using hpath
  · intro level hlevel
    obtain ⟨hvalid, hmem⟩ := hlevels level hlevel
    have hall := List.all_eq_true.mp hvalid level hmem
    rw [Bool.and_eq_true, all_eq_true] at hall
    refine slot_scalars fun sibling hsibling => ?_
    simpa using hall.1 sibling.1 (mem_map_of_mem hsibling)

def twoKeys : VerkleTrie :=
  (new.insert Hash.zero Hash.zero).insert (List.Vector.replicate 32 1) Hash.zero

theorem verkle_verify_sound_twoKeys :
    verify free (twoKeys.prove free Hash.zero)
        (twoKeys.rootHash free) = true ∧
      (twoKeys.prove free Hash.zero).value = twoKeys.get Hash.zero := by
  have hget : twoKeys.get Hash.zero = some Hash.zero := by decide +kernel
  exact ⟨verify_prove hget,
    verkle_verify_sound free_ideal twoKeys _ (verify_prove hget)⟩

end VerkleTrie

end EvaporChain
