import EvaporChain.Crypto.Verkle

/-!
# The Verkle trie as a map

An internal node covers at least two keys, since an insertion splits a leaf only against another
key and a deletion collapses what has become a single leaf. The trie is then determined by the map
it stands for.
-/

namespace EvaporChain

open Core Function

namespace Verkle

/-! ### Keys below a node -/

lemma eq_of_keyByte {k k' : Hash} (h : ∀ left < maxDepth, keyByte k left = keyByte k' left) :
    k = k' := by
  apply Subtype.ext
  apply List.ext_getElem
  · rw [k.2, k'.2]
  · intro i hi hi'
    have hlt : i < 32 := k.2 ▸ hi
    have hbyte := h (31 - i) (by unfold maxDepth; omega)
    have hsub : maxDepth - 1 - (31 - i) = i := by unfold maxDepth; omega
    simpa only [keyByte, hsub, List.Vector.toList, List.getD_eq_getElem _ _ hi,
      List.getD_eq_getElem _ _ hi'] using hbyte

/-- The keys that go on to child `i` of a node with keys `P` and `left + 1` levels. -/
def Below (P : Hash → Prop) (left : ℕ) (i : UInt8) (k : Hash) : Prop := P k ∧ keyByte k left = i

/-- The keys of a node are told apart by the bytes of the levels that are left. -/
def Separates (left : ℕ) (P : Hash → Prop) : Prop :=
  ∀ k k', P k → P k' → (∀ l < left, keyByte k l = keyByte k' l) → k = k'

lemma separates_maxDepth : Separates maxDepth fun _ => True :=
  fun _ _ _ _ h => eq_of_keyByte h

lemma Separates.below {left : ℕ} {P : Hash → Prop} (h : Separates (left + 1) P) (i : UInt8) :
    Separates left (Below P left i) := by
  rintro k k' ⟨hk, hbyte⟩ ⟨hk', hbyte'⟩ hsame
  refine h k k' hk hk' fun l hl => ?_
  rcases Nat.lt_succ_iff_lt_or_eq.mp hl with hl | rfl
  · exact hsame l hl
  · rw [hbyte, hbyte']

/-! ### Shape -/

/-- At least two keys are below the node. -/
def Branches (children : UInt8 → Node) : Prop :=
  (∃ i grandchildren, children i = .internal grandchildren) ∨
    ∃ i j, i ≠ j ∧ (children i).isEmpty = false ∧ (children j).isEmpty = false

/-- Keys are below the nodes of their path, and a key alone in its subtree is a leaf. -/
def Valid : ℕ → (Hash → Prop) → Node → Prop
  | _, _, .empty => True
  | _, P, .leaf key _ => P key
  | 0, _, .internal _ => False
  | left + 1, P, .internal children =>
    (∀ i, Valid left (Below P left i) (children i)) ∧ Branches children

@[simp] lemma Node.isEmpty_empty : Node.empty.isEmpty = true := rfl
@[simp] lemma Node.isEmpty_leaf (key value : Hash) : (Node.leaf key value).isEmpty = false := rfl
@[simp] lemma Node.isEmpty_internal (children : UInt8 → Node) :
    (Node.internal children).isEmpty = false := rfl

lemma Node.isEmpty_iff {n : Node} : n.isEmpty = true ↔ n = .empty := by cases n <;> simp

variable {left : ℕ} {P : Hash → Prop} {n : Node} {children : UInt8 → Node} {key value : Hash}

@[simp] lemma valid_empty : Valid left P .empty := by cases left <;> trivial

@[simp] lemma valid_leaf : Valid left P (.leaf key value) ↔ P key := by cases left <;> exact Iff.rfl

@[simp] lemma not_valid_zero : ¬ Valid 0 P (.internal children) := fun h => h

@[simp] lemma valid_internal :
    Valid (left + 1) P (.internal children) ↔
      (∀ i, Valid left (Below P left i) (children i)) ∧ Branches children := Iff.rfl

@[simp] lemma getRecursive_empty : getRecursive key left .empty = none := by cases left <;> rfl

@[simp] lemma getRecursive_leaf (key' : Hash) :
    getRecursive key left (.leaf key' value) = if key' = key then some value else none := by
  cases left <;> rfl

@[simp] lemma getRecursive_internal :
    getRecursive key (left + 1) (.internal children) =
      getRecursive key left (children (keyByte key left)) := rfl

/-- A node that is not empty has a key. -/
lemma exists_key (hvalid : Valid left P n) (hn : n.isEmpty = false) :
    ∃ k, P k ∧ (getRecursive k left n).isSome := by
  induction left generalizing P n with
  | zero =>
    cases n with
    | empty => simp at hn
    | leaf k v => exact ⟨k, by simpa using hvalid, by simp⟩
    | internal children => exact absurd hvalid not_valid_zero
  | succ left ih =>
    cases n with
    | empty => simp at hn
    | leaf k v => exact ⟨k, by simpa using hvalid, by simp⟩
    | internal children =>
      obtain ⟨hchildren, hbranches⟩ := valid_internal.mp hvalid
      obtain ⟨i, hi⟩ : ∃ i, (children i).isEmpty = false := by
        rcases hbranches with ⟨i, grandchildren, hi⟩ | ⟨i, -, -, hi, -⟩
        · exact ⟨i, by rw [hi]; rfl⟩
        · exact ⟨i, hi⟩
      obtain ⟨k, ⟨hk, hbyte⟩, hget⟩ := ih (hchildren i) hi
      exact ⟨k, hk, by rwa [getRecursive_internal, hbyte]⟩

/-- An internal node has two. -/
lemma exists_two_keys (hvalid : Valid left P (.internal children)) :
    ∃ k k', k ≠ k' ∧ P k ∧ P k' ∧ (getRecursive k left (.internal children)).isSome ∧
      (getRecursive k' left (.internal children)).isSome := by
  induction left generalizing P children with
  | zero => exact absurd hvalid not_valid_zero
  | succ left ih =>
    obtain ⟨hchildren, hbranches⟩ := valid_internal.mp hvalid
    rcases hbranches with ⟨i, grandchildren, hi⟩ | ⟨i, j, hij, hi, hj⟩
    · have hchild := hchildren i
      rw [hi] at hchild
      obtain ⟨k, k', hne, ⟨hk, hbyte⟩, ⟨hk', hbyte'⟩, hget, hget'⟩ := ih hchild
      refine ⟨k, k', hne, hk, hk', ?_, ?_⟩
      · rwa [getRecursive_internal, hbyte, hi]
      · rwa [getRecursive_internal, hbyte', hi]
    · obtain ⟨k, ⟨hk, hbyte⟩, hget⟩ := exists_key (hchildren i) hi
      obtain ⟨k', ⟨hk', hbyte'⟩, hget'⟩ := exists_key (hchildren j) hj
      refine ⟨k, k', ?_, hk, hk', ?_, ?_⟩
      · rintro rfl
        exact hij (hbyte.symm.trans hbyte')
      · rwa [getRecursive_internal, hbyte]
      · rwa [getRecursive_internal, hbyte']

/-- Neither an empty node nor a leaf has the map of an internal node. -/
lemma internal_of_getRecursive {m : Node} (hvalid : Valid left P (.internal children))
    (h : ∀ k, P k → getRecursive k left (.internal children) = getRecursive k left m) :
    ∃ children', m = .internal children' := by
  obtain ⟨k, k', hne, hk, hk', hget, hget'⟩ := exists_two_keys hvalid
  rw [h k hk] at hget
  rw [h k' hk'] at hget'
  cases m with
  | empty => simp at hget
  | leaf key value =>
    simp only [getRecursive_leaf, Option.isSome_ite] at hget hget'
    exact absurd (hget.symm.trans hget') hne
  | internal children' => exact ⟨children', rfl⟩

/-- Nodes with the same map are equal. -/
lemma eq_of_getRecursive {m : Node} (hn : Valid left P n) (hm : Valid left P m)
    (h : ∀ k, P k → getRecursive k left n = getRecursive k left m) : n = m := by
  induction n generalizing left P m with
  | internal children ih =>
    obtain ⟨children', rfl⟩ := internal_of_getRecursive hn h
    cases left with
    | zero => exact absurd hn not_valid_zero
    | succ left =>
      congr 1
      funext i
      refine ih i (hn.1 i) (hm.1 i) ?_
      rintro k ⟨hk, rfl⟩
      exact h k hk
  | leaf k v =>
    have hk := h k (by simpa using hn)
    cases m with
    | empty => simp at hk
    | leaf k' v' =>
      simp only [getRecursive_leaf, if_true] at hk
      split_ifs at hk with heq
      cases hk
      rw [heq]
    | internal children' =>
      obtain ⟨_, hleaf⟩ := internal_of_getRecursive hm fun k hk => (h k hk).symm
      cases hleaf
  | empty =>
    cases m with
    | empty => rfl
    | leaf k' v' => simpa using h k' (by simpa using hm)
    | internal children' =>
      obtain ⟨_, hempty⟩ := internal_of_getRecursive hm fun k hk => (h k hk).symm
      cases hempty

/-! ### Insertion -/

/-- Two keys never end in one leaf. -/
lemma insertRecursive_leaf {existing value' : Hash} (hsep : Separates left P)
    (hexisting : P existing)
    (hkey : P key) (hne : existing ≠ key) :
    ∃ children, insertRecursive key value left (.leaf existing value') = .internal children := by
  cases left with
  | zero => exact absurd (hsep existing key hexisting hkey (by simp)) hne
  | succ left =>
    simp only [insertRecursive, if_neg hne]
    split_ifs
    · exact ⟨_, rfl⟩
    · exact ⟨_, rfl⟩

lemma insertRecursive_isEmpty : (insertRecursive key value left n).isEmpty = false := by
  cases left with
  | zero => rfl
  | succ left =>
    cases n with
    | empty | internal children => rfl
    | leaf existing value' =>
      simp only [insertRecursive]
      split_ifs <;> rfl

lemma Branches.update {idx : UInt8} {c : Node} (h : Branches children) (hc : c.isEmpty = false)
    (hinternal : ∀ g, children idx = .internal g → ∃ g', c = .internal g') :
    Branches (Function.update children idx c) := by
  have hne : ∀ i, (children i).isEmpty = false →
      (Function.update children idx c i).isEmpty = false := by
    intro i hi
    rw [update_apply]
    split_ifs
    · exact hc
    · exact hi
  rcases h with ⟨i, g, hi⟩ | ⟨i, j, hij, hi, hj⟩
  · refine .inl ⟨i, ?_⟩
    rw [update_apply]
    split_ifs with heq
    · subst heq
      exact hinternal g hi
    · exact ⟨g, hi⟩
  · exact .inr ⟨i, j, hij, hne i hi, hne j hj⟩

/-- Below a node that gets a key only one child changes. -/
lemma getRecursive_update {k : Hash} {idx : UInt8} {c : Node} :
    getRecursive k (left + 1) (.internal (Function.update children idx c)) =
      if keyByte k left = idx then getRecursive k left c
      else getRecursive k (left + 1) (.internal children) := by
  rw [getRecursive_internal, update_apply]
  split_ifs <;> rfl

/-- A node has the map of its changed child at a key of that child. -/
lemma getRecursive_update_below {v : Option Hash} {c : Node}
    (hget : ∀ k, Below P left (keyByte key left) k → getRecursive k left c =
      if k = key then v else getRecursive k left (children (keyByte key left))) {k : Hash}
    (hk : P k) :
    getRecursive k (left + 1) (.internal (Function.update children (keyByte key left) c)) =
      if k = key then v else getRecursive k (left + 1) (.internal children) := by
  rw [getRecursive_update]
  split_ifs with hbyte hkey hkey
  · rw [hget k ⟨hk, hbyte⟩, if_pos hkey]
  · rw [hget k ⟨hk, hbyte⟩, if_neg hkey, getRecursive_internal, hbyte]
  · exact absurd (by rw [hkey]) hbyte
  · rfl

/-- The split of a leaf: one node for each byte the two keys share. -/
lemma insertRecursive_split {existing value' : Hash} (hsep : Separates left P)
    (hexisting : P existing) (hkey : P key) (hne : existing ≠ key) :
    Valid left P (insertRecursive key value left (.leaf existing value')) ∧
      ∀ k, P k → getRecursive k left (insertRecursive key value left (.leaf existing value')) =
        if k = key then some value else if existing = k then some value' else none := by
  induction left generalizing P with
  | zero => exact absurd (hsep existing key hexisting hkey (by simp)) hne
  | succ left ih =>
    simp only [insertRecursive, if_neg hne]
    split_ifs with hbyte
    · have hbelow : Below P left (keyByte key left) existing := ⟨hexisting, hbyte⟩
      have hbelow' : Below P left (keyByte key left) key := ⟨hkey, rfl⟩
      obtain ⟨hvalid, hget⟩ := ih (hsep.below _) hbelow hbelow'
      obtain ⟨g, hg⟩ := insertRecursive_leaf (hsep.below _) hbelow hbelow' hne
      refine ⟨⟨?_, .inl ⟨keyByte key left, g, by rw [update_self, hg]⟩⟩, ?_⟩
      · exact (forall_update_iff _ _).mpr ⟨hvalid, fun _ _ => valid_empty⟩
      · intro k hk
        rw [getRecursive_update]
        by_cases hkbyte : keyByte k left = keyByte key left
        · rw [if_pos hkbyte, hget k ⟨hk, hkbyte⟩]
        · have hkey' : k ≠ key := fun h => hkbyte (by rw [h])
          have hexisting' : existing ≠ k := fun h => hkbyte (by rw [← h, hbyte])
          simp [if_neg hkbyte, if_neg hkey', if_neg hexisting']
    · refine ⟨⟨?_, .inr ⟨keyByte existing left, keyByte key left, hbyte, ?_, ?_⟩⟩, ?_⟩
      · intro i
        rw [update_apply, update_apply]
        split_ifs with hi hi'
        · exact valid_leaf.mpr ⟨hkey, hi.symm⟩
        · exact valid_leaf.mpr ⟨hexisting, hi'.symm⟩
        · exact valid_empty
      · rw [update_of_ne hbyte, update_self]
        rfl
      · rw [update_self]
        rfl
      · intro k hk
        rw [getRecursive_update, getRecursive_update]
        by_cases hkbyte : keyByte k left = keyByte key left
        · have hexisting' : existing ≠ k := fun h => hbyte (by rw [h, hkbyte])
          by_cases hkey' : k = key
          · simp [hkey']
          · simp [hkey', Ne.symm hkey', hexisting']
        · have hkey' : k ≠ key := fun h => hkbyte (by rw [h])
          rw [if_neg hkbyte, if_neg hkey']
          by_cases hexisting' : existing = k
          · simp [hexisting']
          · simp [hexisting']

/-- Insertion keeps the shape and changes the map at the key. -/
lemma insertRecursive_spec (hsep : Separates left P) (hvalid : Valid left P n) (hkey : P key) :
    Valid left P (insertRecursive key value left n) ∧
      ∀ k, P k → getRecursive k left (insertRecursive key value left n) =
        if k = key then some value else getRecursive k left n := by
  induction left generalizing P n with
  | zero =>
    refine ⟨valid_leaf.mpr hkey, fun k hk => ?_⟩
    have heq : k = key := hsep k key hk hkey (by simp)
    simp [insertRecursive, heq]
  | succ left ih =>
    cases n with
    | empty =>
      refine ⟨valid_leaf.mpr hkey, fun k _ => ?_⟩
      simp [insertRecursive, eq_comm]
    | leaf existing value' =>
      by_cases heq : existing = key
      · subst heq
        refine ⟨by simpa [insertRecursive] using hvalid, fun k _ => ?_⟩
        by_cases hk : k = existing
        · simp [insertRecursive, hk]
        · simp [insertRecursive, hk, Ne.symm hk]
      · obtain ⟨hvalid', hget⟩ := insertRecursive_split hsep (valid_leaf.mp hvalid) hkey heq
        exact ⟨hvalid', fun k hk => by rw [hget k hk, getRecursive_leaf]⟩
    | internal children =>
      obtain ⟨hchildren, hbranches⟩ := valid_internal.mp hvalid
      obtain ⟨hchild, hget⟩ := ih (hsep.below _) (hchildren (keyByte key left)) ⟨hkey, rfl⟩
      refine ⟨⟨(forall_update_iff _ _).mpr ⟨hchild, fun i _ => hchildren i⟩, ?_⟩, ?_⟩
      · refine hbranches.update insertRecursive_isEmpty ?_
        intro g hg
        rw [hg]
        have hvalid' := hg ▸ hchildren (keyByte key left)
        cases left with
        | zero => exact absurd hvalid' not_valid_zero
        | succ left => exact ⟨_, rfl⟩
      · intro k hk
        exact getRecursive_update_below hget hk

/-! ### Deletion -/

/-- What a deletion leaves: no child, a single leaf, or at least two keys. -/
lemma collapse_cases (children : UInt8 → Node) :
    ((∀ i, children i = .empty) ∧ collapse children = .empty) ∨
      (∃ i key value, children i = .leaf key value ∧ (∀ j ≠ i, children j = .empty) ∧
        collapse children = .leaf key value) ∨
      (Branches children ∧ collapse children = .internal children) := by
  unfold collapse
  rcases hpresent : present Node.isEmpty children with _ | ⟨i, _ | ⟨j, rest⟩⟩
  · exact .inl ⟨fun i => Node.isEmpty_iff.mp (present_eq_nil.mp hpresent i), rfl⟩
  · have honly := present_eq_singleton.mp hpresent
    have hothers : ∀ j ≠ i, children j = .empty := by
      intro j hj
      by_contra hne
      have : (children j).isEmpty = false := by
        rw [← Bool.not_eq_true, Node.isEmpty_iff]
        exact hne
      exact hj ((honly j).mp this)
    cases hi : children i with
    | empty => simpa [hi] using (honly i).mpr rfl
    | leaf key value => exact .inr (.inl ⟨i, key, value, hi, hothers, by simp [hi]⟩)
    | internal g => exact .inr (.inr ⟨.inl ⟨i, g, hi⟩, by simp [hi]⟩)
  · have hi : i ∈ present Node.isEmpty children := by rw [hpresent]; simp
    have hj : j ∈ present Node.isEmpty children := by rw [hpresent]; simp
    have hnodup := hpresent ▸ nodup_present
    have hij : i ≠ j := by
      rintro rfl
      simp at hnodup
    exact .inr (.inr ⟨.inr ⟨i, j, hij, mem_present.mp hi, mem_present.mp hj⟩, rfl⟩)

/-- Collapsing keeps the map and restores the shape. -/
lemma collapse_spec (hchildren : ∀ i, Valid left (Below P left i) (children i)) :
    Valid (left + 1) P (collapse children) ∧
      ∀ k, P k → getRecursive k (left + 1) (collapse children) =
        getRecursive k (left + 1) (.internal children) := by
  rcases collapse_cases children with ⟨hall, hcollapse⟩ | ⟨i, key, value, hi, hothers, hcollapse⟩ |
    ⟨hbranches, hcollapse⟩
  · rw [hcollapse]
    exact ⟨valid_empty, fun k _ => by simp [hall]⟩
  · rw [hcollapse]
    have hkey := hchildren i
    rw [hi, valid_leaf] at hkey
    refine ⟨valid_leaf.mpr hkey.1, fun k _ => ?_⟩
    by_cases hbyte : keyByte k left = i
    · simp [hbyte, hi]
    · have hne : key ≠ k := fun h => hbyte (by rw [← h, hkey.2])
      simp [hothers _ hbyte, hne]
  · rw [hcollapse]
    exact ⟨⟨hchildren, hbranches⟩, fun k _ => rfl⟩

lemma deleteRecursive_empty : deleteRecursive key left .empty = (.empty, false) := by
  cases left <;> rfl

lemma deleteRecursive_leaf (key' : Hash) :
    deleteRecursive key left (.leaf key' value) =
      if key' = key then (.empty, true) else (.leaf key' value, false) := by
  cases left <;> rfl

/-- A key that is not there is not deleted. -/
lemma deleteRecursive_of_false (h : (deleteRecursive key left n).2 = false) :
    (deleteRecursive key left n).1 = n := by
  induction n generalizing left with
  | empty => rw [deleteRecursive_empty]
  | leaf key' value =>
    rw [deleteRecursive_leaf] at h ⊢
    split_ifs at h ⊢
    rfl
  | internal children ih =>
    cases left with
    | zero => rfl
    | succ left =>
      simp only [deleteRecursive] at h ⊢
      split_ifs at h ⊢ with hdeleted
      rw [ih _ (Bool.not_eq_true _ ▸ hdeleted), update_eq_self]

/-- Deletion keeps the shape, removes the key from the map and tells whether it was there. -/
lemma deleteRecursive_spec (hsep : Separates left P) (hvalid : Valid left P n) (hkey : P key) :
    Valid left P (deleteRecursive key left n).1 ∧
      (∀ k, P k → getRecursive k left (deleteRecursive key left n).1 =
        if k = key then none else getRecursive k left n) ∧
      (deleteRecursive key left n).2 = (getRecursive key left n).isSome := by
  induction n generalizing left P with
  | empty => simp [deleteRecursive_empty]
  | leaf key' value =>
    rw [deleteRecursive_leaf]
    split_ifs with heq
    · subst heq
      refine ⟨valid_empty, fun k _ => ?_, by simp⟩
      by_cases hk : k = key'
      · simp [hk]
      · simp [Ne.symm hk]
    · refine ⟨hvalid, fun k _ => ?_, by simp [heq]⟩
      by_cases hk : k = key
      · simp [hk, heq]
      · simp [hk]
  | internal children ih =>
    cases left with
    | zero => exact absurd hvalid not_valid_zero
    | succ left =>
      obtain ⟨hchildren, hbranches⟩ := valid_internal.mp hvalid
      obtain ⟨hchild, hget, hdeleted⟩ := ih _ (hsep.below _) (hchildren _) ⟨hkey, rfl⟩
      have hupdate : ∀ i, Valid left (Below P left i)
          (Function.update children (keyByte key left)
            (deleteRecursive key left (children (keyByte key left))).1 i) :=
        (forall_update_iff _ _).mpr ⟨hchild, fun i _ => hchildren i⟩
      have hmap (k : Hash) (hk : P k) := getRecursive_update_below hget hk
      simp only [deleteRecursive]
      split_ifs with hflag
      · obtain ⟨hvalid', hget'⟩ := collapse_spec hupdate
        refine ⟨hvalid', fun k hk => (hget' k hk).trans (hmap k hk), ?_⟩
        rw [getRecursive_internal, ← hdeleted, hflag]
      · have hsame := deleteRecursive_of_false (Bool.not_eq_true _ ▸ hflag)
        refine ⟨?_, hmap, ?_⟩
        · rw [hsame, update_eq_self]
          exact hvalid
        · rw [getRecursive_internal, ← hdeleted]
          exact (Bool.not_eq_true _ ▸ hflag).symm

end Verkle

open Verkle

/-! ### Tries -/

namespace VerkleTrie

/-- The shape of every trie that insertions and deletions build. -/
def Valid (trie : VerkleTrie) : Prop := Verkle.Valid maxDepth (fun _ => True) trie.root

variable {trie : VerkleTrie}

lemma valid_new : new.Valid := valid_empty

lemma get_new (key : Hash) : new.get key = none := getRecursive_empty

variable (h : trie.Valid)

include h

lemma Valid.insert (key value : Hash) : (trie.insert key value).Valid :=
  (insertRecursive_spec separates_maxDepth h trivial).1

lemma Valid.get_insert (key value k : Hash) :
    (trie.insert key value).get k = if k = key then some value else trie.get k :=
  (insertRecursive_spec separates_maxDepth h trivial).2 k trivial

lemma Valid.delete (key : Hash) : (trie.delete key).1.Valid :=
  (deleteRecursive_spec separates_maxDepth h trivial).1

lemma Valid.get_delete (key k : Hash) :
    (trie.delete key).1.get k = if k = key then none else trie.get k :=
  (deleteRecursive_spec separates_maxDepth h trivial).2.1 k trivial

lemma Valid.deleted (key : Hash) : (trie.delete key).2 = (trie.get key).isSome :=
  (deleteRecursive_spec separates_maxDepth h trivial).2.2

/-- A trie is determined by its map. -/
theorem Valid.eq_of_get {trie' : VerkleTrie} (h' : trie'.Valid)
    (hget : ∀ k, trie.get k = trie'.get k) : trie = trie' := by
  cases trie
  exact congrArg _ (eq_of_getRecursive h h' fun k _ => hget k)

omit h

/-! ### Runs -/

/-- Write a value, or delete the key if there is none. -/
def write (trie : VerkleTrie) : Hash × Option Hash → VerkleTrie
  | (key, some value) => trie.insert key value
  | (key, none) => (trie.delete key).1

/-- What was last written to each key. -/
def written (writes : List (Hash × Option Hash)) : Hash → Option Hash :=
  writes.foldl (fun map w => update map w.1 w.2) fun _ => none

lemma valid_foldl_write (writes : List (Hash × Option Hash)) : (writes.foldl write new).Valid ∧
    ∀ key, (writes.foldl write new).get key = written writes key := by
  induction writes using List.reverseRecOn with
  | nil => exact ⟨valid_new, get_new⟩
  | append_singleton writes w ih =>
    obtain ⟨hvalid, hget⟩ := ih
    obtain ⟨key, _ | value⟩ := w <;> simp only [written, List.foldl_concat, write]
    · exact ⟨hvalid.delete key, fun k => by rw [hvalid.get_delete, hget, update_apply]; rfl⟩
    · exact ⟨hvalid.insert key value, fun k => by rw [hvalid.get_insert, hget, update_apply]; rfl⟩

/-- A trie is the map of what was written: reads give it back, a deletion tells whether the key was
there, and writes that end in the same map end in the same trie, in whatever order they came. -/
theorem verkle_trie_canonical (writes : List (Hash × Option Hash)) :
    let trie := writes.foldl write new
    (∀ key, trie.get key = written writes key ∧
        (trie.delete key).2 = (written writes key).isSome) ∧
      ∀ writes', written writes = written writes' → trie = writes'.foldl write new := by
  obtain ⟨hvalid, hget⟩ := valid_foldl_write writes
  refine ⟨fun key => ⟨hget key, by rw [hvalid.deleted, hget]⟩, fun writes' heq => ?_⟩
  obtain ⟨hvalid', hget'⟩ := valid_foldl_write writes'
  exact hvalid.eq_of_get hvalid' fun key => by rw [hget, hget', heq]

end VerkleTrie

end EvaporChain
