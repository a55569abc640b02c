import EvaporChain.Core.Codec

/-!
# Merkle trees over sorted pairs

Trees whose nodes hash the two digests below them, the smaller one first, so that a path up to the
root is a list of siblings without directions. A path that ends in the root of a tree starts from a
digest of that tree.
-/

namespace Core

/-! ### Pairs -/

/-- Two digests, the smaller one first. -/
def sortedPair (a b : Hash) : Bytes :=
  if a.toList ≤ b.toList then a.toList ++ b.toList else b.toList ++ a.toList

variable {a b c d : Hash}

lemma sortedPair_length (a b : Hash) : (sortedPair a b).length = 64 := by
  unfold sortedPair
  split_ifs <;> simp

/-- A pair is read back up to its order. -/
lemma sortedPair_inj (h : sortedPair a b = sortedPair c d) : (a = c ∧ b = d) ∨ (a = d ∧ b = c) := by
  have happend {a b c d : Hash} (h : a.toList ++ b.toList = c.toList ++ d.toList) :
      a = c ∧ b = d := by
    obtain ⟨hfirst, hsecond⟩ := List.append_inj h (by simp)
    exact ⟨List.Vector.toList_injective hfirst, List.Vector.toList_injective hsecond⟩
  unfold sortedPair at h
  split_ifs at h
  · exact .inl (happend h)
  · exact .inr (happend h)
  · exact .inr (happend h).symm
  · exact .inl (happend h).symm

variable (hash : Bytes → Hash)

/-! ### Paths -/

def climbSorted (start : Hash) (path : List Hash) : Hash :=
  path.foldl (fun current sibling => hash (sortedPair current sibling)) start

/-- What is hashed on the way. -/
def climbInputs : Hash → List Hash → List Bytes
  | _, [] => []
  | current, sibling :: path =>
    sortedPair current sibling :: climbInputs (hash (sortedPair current sibling)) path

lemma length_of_mem_climbInputs {start : Hash} {path : List Hash} {x : Bytes}
    (hx : x ∈ climbInputs hash start path) : x.length = 64 := by
  induction path generalizing start with
  | nil => cases hx
  | cons sibling path ih =>
    rcases List.mem_cons.mp hx with rfl | hx
    · exact sortedPair_length _ _
    · exact ih hx

/-! ### Levels -/

/-- What is hashed for the level above a level; a last one without sibling is paired with zero. -/
def levelInputs : List Hash → List Bytes
  | a :: b :: rest => sortedPair a b :: levelInputs rest
  | [a] => [sortedPair a Hash.zero]
  | [] => []

def nextLevel (level : List Hash) : List Hash := (levelInputs level).map hash

/-- Position of the other digest of a pair. -/
def siblingIndex (idx : ℕ) : ℕ := if idx % 2 = 0 then idx + 1 else idx - 1

/-- Path from a position of a level to the root, and the root. -/
def climbLevels : ℕ → ℕ → List Hash → List Hash × Hash
  | 0, _, level => ([], level.headD Hash.zero)
  | fuel + 1, idx, level =>
    if 1 < level.length then
      let sibling := level.getD (siblingIndex idx) Hash.zero
      let rest := climbLevels fuel (idx / 2) (nextLevel hash level)
      (sibling :: rest.1, rest.2)
    else ([], level.headD Hash.zero)

/-- What is hashed from a level up to the root. -/
def climbLevelsInputs : ℕ → List Hash → List Bytes
  | 0, _ => []
  | fuel + 1, level =>
    if 1 < level.length then levelInputs level ++ climbLevelsInputs fuel (nextLevel hash level)
    else []

/-! ### Digests of a tree -/

/-- Digests of a tree: its leaves, the padding, and hashes of pairs among the given inputs. -/
inductive TreeDigest (leaves : List Hash) (inputs : List Bytes) : Hash → Prop
  | leaf {x : Hash} (hx : x ∈ leaves) : TreeDigest leaves inputs x
  | pad : TreeDigest leaves inputs Hash.zero
  | node {a b : Hash} (ha : TreeDigest leaves inputs a) (hb : TreeDigest leaves inputs b)
      (hinput : sortedPair a b ∈ inputs) : TreeDigest leaves inputs (hash (sortedPair a b))

variable {hash} {leaves level : List Hash} {inputs : List Bytes}

lemma treeDigest_nextLevel (hlevel : ∀ x ∈ level, TreeDigest hash leaves inputs x)
    (hinputs : levelInputs level ⊆ inputs) :
    ∀ x ∈ nextLevel hash level, TreeDigest hash leaves inputs x := by
  induction level using levelInputs.induct with
  | case1 a b rest ih =>
    obtain ⟨ha, hb, hrest⟩ := by simpa only [List.forall_mem_cons] using hlevel
    obtain ⟨hpair, htail⟩ := List.cons_subset.mp hinputs
    exact List.forall_mem_cons.mpr ⟨.node ha hb hpair, ih hrest htail⟩
  | case2 a =>
    intro x hx
    obtain rfl := List.mem_singleton.mp hx
    exact .node (hlevel a (.head _)) .pad (hinputs (.head _))
  | case3 =>
    intro x hx
    cases hx

lemma treeDigest_root {fuel idx : ℕ} (hlevel : ∀ x ∈ level, TreeDigest hash leaves inputs x)
    (hinputs : climbLevelsInputs hash fuel level ⊆ inputs) :
    TreeDigest hash leaves inputs (climbLevels hash fuel idx level).2 := by
  have hhead (level : List Hash) (hlevel : ∀ x ∈ level, TreeDigest hash leaves inputs x) :
      TreeDigest hash leaves inputs (level.headD Hash.zero) := by
    cases level with
    | nil => exact .pad
    | cons x level => exact hlevel x (.head _)
  induction fuel generalizing idx level with
  | zero => exact hhead level hlevel
  | succ fuel ih =>
    by_cases hlength : 1 < level.length
    · rw [climbLevelsInputs, if_pos hlength] at hinputs
      rw [climbLevels, if_pos hlength]
      obtain ⟨hthis, hrest⟩ := List.append_subset.mp hinputs
      exact ih (treeDigest_nextLevel hlevel hthis) hrest
    · rw [climbLevels, if_neg hlength]
      exact hhead level hlevel

/-- A path to a digest of a tree starts from one, if what is hashed on the way collides neither with
the nodes nor with the leaves and the padding. -/
lemma treeDigest_of_climb {start : Hash} {path : List Hash}
    (hfree : ∀ x ∈ climbInputs hash start path, ∀ y ∈ inputs, hash x = hash y → x = y)
    (hleaves : ∀ x ∈ climbInputs hash start path, hash x ∉ leaves)
    (hpad : ∀ x ∈ climbInputs hash start path, hash x ≠ Hash.zero)
    (h : TreeDigest hash leaves inputs (climbSorted hash start path)) :
    TreeDigest hash leaves inputs start := by
  induction path generalizing start with
  | nil => exact h
  | cons sibling path ih =>
    obtain ⟨hfree₀, hfree⟩ := List.forall_mem_cons.mp hfree
    obtain ⟨hleaves₀, hleaves⟩ := List.forall_mem_cons.mp hleaves
    obtain ⟨hpad₀, hpad⟩ := List.forall_mem_cons.mp hpad
    have hnext := ih hfree hleaves hpad h
    generalize hdigest : hash (sortedPair start sibling) = digest at hnext
    cases hnext with
    | leaf hx => exact absurd (hdigest ▸ hx) hleaves₀
    | pad => exact absurd hdigest hpad₀
    | node ha hb hinput =>
      rcases sortedPair_inj (hfree₀ _ hinput hdigest) with ⟨rfl, -⟩ | ⟨rfl, -⟩
      · exact ha
      · exact hb

end Core
