import Mathlib

/-!
# Grouping items that share a key

Items are numbered. Whenever a key occurs for the second time, its item is united with the item in
which the key occurred first, in a union-find structure with path compression and union by rank.
The groups are the items with a common root, in order.
-/

namespace Core

open List

open Batteries UnionFind

variable {α γ κ : Type}

/-! ### Union by rank -/

/-- `n` nodes, each its own root. -/
def singletons (n : ℕ) : UnionFind := (UnionFind.push)^[n] .empty

/-- Unite the classes of two nodes. On equal ranks the root of `a` becomes the common root. -/
def unite (uf : UnionFind) (a b : ℕ) : UnionFind :=
  if h : a < uf.size ∧ b < uf.size then
    let ra := (uf.find ⟨a, h.1⟩).2.1.1
    let uf₁ := (uf.find ⟨a, h.1⟩).1
    have hb : b < uf₁.size := by simp [uf₁, h.2]
    let rb := (uf₁.find ⟨b, hb⟩).2.1.1
    let uf₂ := (uf₁.find ⟨b, hb⟩).1
    uf₂.link ⟨rb, by simp [rb, uf₂, uf₁, rootD_lt, h.2]⟩
      ⟨ra, by simp [ra, uf₂, uf₁, rootD_lt, h.1]⟩
      (by
        rw [← rootD_eq_self]
        simp [ra, uf₂, uf₁, rootD_rootD])
  else uf

lemma size_singletons (n : ℕ) : (singletons n).size = n := by
  induction n with
  | zero => rfl
  | succ n ih =>
    rw [singletons, Function.iterate_succ_apply', ← singletons]
    simp [size, ih]

lemma rootD_singletons (n i : ℕ) : (singletons n).rootD i = i := by
  induction n with
  | zero => rfl
  | succ n ih => rwa [singletons, Function.iterate_succ_apply', root_push]

@[simp] lemma size_unite (uf : UnionFind) (a b : ℕ) : (unite uf a b).size = uf.size := by
  rw [unite]
  split_ifs
  · simp [size]
  · rfl

lemma equiv_unite {uf : UnionFind} {a b x y : ℕ} (ha : a < uf.size) (hb : b < uf.size) :
    (unite uf a b).Equiv x y ↔
      uf.Equiv x y ∨ uf.Equiv x b ∧ uf.Equiv a y ∨ uf.Equiv x a ∧ uf.Equiv b y := by
  rw [unite, dif_pos ⟨ha, hb⟩, equiv_link]
  · simp [equiv_find]
  · rw [← rootD_eq_self]
    simp [rootD_rootD]

/-! ### Connecting items by their keys -/

section Connect

variable [DecidableEq κ]

/-- Item `i` has the key: unite it with the first item that had it, or be the first. -/
def addKey (i : ℕ) (s : UnionFind × (κ → Option ℕ)) (key : κ) : UnionFind × (κ → Option ℕ) :=
  match s.2 key with
  | some first => (unite s.1 first i, s.2)
  | none => (s.1, Function.update s.2 key (some i))

/-- Items given by their keys, united when they share one. -/
def connect (items : List (ℕ × List κ)) : UnionFind :=
  (items.foldl (fun s item => item.2.foldl (addKey item.1) s)
    (singletons items.length, fun _ => none)).1

/-- Each key seen so far leads from all its items to its first one. -/
structure Connected (n : ℕ) (done : List (ℕ × κ)) (s : UnionFind × (κ → Option ℕ)) : Prop where
  size : s.1.size = n
  first_lt : ∀ key first, s.2 key = some first → first < n
  equiv : ∀ i key, (i, key) ∈ done → ∃ first, s.2 key = some first ∧ s.1.Equiv i first

variable {done : List (ℕ × κ)} {s : UnionFind × (κ → Option ℕ)}

lemma Connected.addKey {n i : ℕ} (h : Connected n done s) (hi : i < n) (key : κ) :
    Connected n (done ++ [(i, key)]) (addKey i s key) := by
  rw [Core.addKey]
  cases hfirst : s.2 key with
  | some first =>
    have hlt := h.size ▸ h.first_lt key first hfirst
    have hi' : i < s.1.size := h.size ▸ hi
    refine ⟨(size_unite ..).trans h.size, h.first_lt, fun j key' hj => ?_⟩
    rcases List.mem_append.mp hj with hj | hj
    · obtain ⟨first', hfirst', hequiv⟩ := h.equiv j key' hj
      exact ⟨first', hfirst', (equiv_unite hlt hi').mpr (.inl hequiv)⟩
    · obtain ⟨rfl, rfl⟩ := Prod.mk.inj (List.mem_singleton.mp hj)
      exact ⟨first, hfirst, (equiv_unite hlt hi').mpr (.inr (.inl ⟨.rfl, .rfl⟩))⟩
  | none =>
    refine ⟨h.size, fun key' first hfirst' => ?_, fun j key' hj => ?_⟩
    · by_cases hkey : key' = key
      · subst hkey
        simp only [Function.update_self] at hfirst'
        exact Option.some.inj hfirst' ▸ hi
      · simp only [Function.update_of_ne hkey] at hfirst'
        exact h.first_lt key' first hfirst'
    · rcases List.mem_append.mp hj with hj | hj
      · obtain ⟨first, hfirst', hequiv⟩ := h.equiv j key' hj
        have hkey : key' ≠ key := by
          rintro rfl
          rw [hfirst] at hfirst'
          cases hfirst'
        exact ⟨first, by simp [hkey, hfirst'], hequiv⟩
      · obtain ⟨rfl, rfl⟩ := Prod.mk.inj (List.mem_singleton.mp hj)
        exact ⟨j, by simp, .rfl⟩

lemma Connected.addKeys {n i : ℕ} (h : Connected n done s) (hi : i < n) (keys : List κ) :
    Connected n (done ++ keys.map (i, ·)) (keys.foldl (Core.addKey i) s) := by
  induction keys generalizing done s with
  | nil => simpa using h
  | cons key keys ih => simpa using ih (h.addKey hi key)

lemma Connected.items {n : ℕ} {items : List (ℕ × List κ)} (hitems : ∀ item ∈ items, item.1 < n)
    (h : Connected n done s) :
    Connected n (done ++ items.flatMap fun item => item.2.map (item.1, ·))
      (items.foldl (fun s item => item.2.foldl (Core.addKey item.1) s) s) := by
  induction items generalizing done s with
  | nil => simpa using h
  | cons item items ih =>
    have hnext := h.addKeys (hitems item (.head _)) item.2
    simpa using
      ih (fun x hx => hitems x (.tail _ hx)) hnext

/-- Items that share a key have the same root. -/
theorem rootD_connect_eq {items : List (ℕ × List κ)}
    (hitems : ∀ item ∈ items, item.1 < items.length)
    {a b : ℕ × List κ} (ha : a ∈ items) (hb : b ∈ items) {key : κ} (hka : key ∈ a.2)
    (hkb : key ∈ b.2) : (connect items).rootD a.1 = (connect items).rootD b.1 := by
  have hstart : Connected items.length [] (singletons items.length, fun _ : κ => none) :=
    ⟨size_singletons _, by simp, by simp⟩
  have hend := hstart.items hitems
  have hmem {c : ℕ × List κ} (hc : c ∈ items) (hkey : key ∈ c.2) :
      (c.1, key) ∈ [] ++ items.flatMap fun item => item.2.map (item.1, ·) := by
    simp only [nil_append, mem_flatMap, mem_map]
    exact ⟨c, hc, key, hkey, rfl⟩
  obtain ⟨first, hfirst, hequiv⟩ := hend.equiv _ _ (hmem ha hka)
  obtain ⟨first', hfirst', hequiv'⟩ := hend.equiv _ _ (hmem hb hkb)
  obtain rfl := Option.some.inj (hfirst.symm.trans hfirst')
  exact hequiv.trans hequiv'.symm

end Connect

/-! ### Groups -/

section Groups

variable [DecidableEq γ]

/-- Append an item to the group of its label, which is created if there is none. -/
def pushGroup (r : γ) (x : α) : List (γ × List α) → List (γ × List α)
  | [] => [(r, [x])]
  | (r', xs) :: gs => if r' = r then (r', xs ++ [x]) :: gs else (r', xs) :: pushGroup r x gs

/-- Group a list of numbered items by their roots, compressing paths along the way. -/
def groupByRoot (uf : UnionFind) (l : List (ℕ × α)) : List (List (ℕ × α)) :=
  (l.foldl (fun s x => ((s.1.findD x.1).1, pushGroup (s.1.findD x.1).2 x s.2)) (uf, [])).2.map
    Prod.snd

lemma pushGroup_of_mem {f : γ → List α} {rs : List γ} (hnodup : rs.Nodup) {r : γ} (hr : r ∈ rs)
    (x : α) : pushGroup r x (rs.map fun r' => (r', f r')) =
      rs.map fun r' => (r', if r' = r then f r' ++ [x] else f r') := by
  induction rs with
  | nil => simp at hr
  | cons r' rs ih =>
    obtain ⟨hnot, hnodup⟩ := List.nodup_cons.mp hnodup
    rw [map_cons, pushGroup]
    split_ifs with heq
    · subst heq
      have hrest : rs.map (fun r' => (r', f r')) =
          rs.map fun r'' => (r'', if r'' = r' then f r'' ++ [x] else f r'') := by
        refine map_congr_left fun r'' hr'' => ?_
        have hne : r'' ≠ r' := fun h => hnot (h ▸ hr'')
        rw [if_neg hne]
      simp [hrest]
    · have hmem : r ∈ rs := (List.mem_cons.mp hr).resolve_left (Ne.symm heq)
      simp [heq, ih hnodup hmem]

lemma pushGroup_of_not_mem {f : γ → List α} {rs : List γ} {r : γ} (hr : r ∉ rs) (x : α) :
    pushGroup r x (rs.map fun r' => (r', f r')) = rs.map (fun r' => (r', f r')) ++ [(r, [x])] := by
  induction rs with
  | nil => rfl
  | cons r' rs ih =>
    rw [mem_cons, not_or] at hr
    simp [pushGroup, Ne.symm hr.1, ih hr.2]

/-- The groups are the parts of the list with a common label. -/
lemma foldl_pushGroup (label : α → γ) (l : List α) :
    ∃ rs : List γ, rs.Nodup ∧ (∀ x ∈ l, label x ∈ rs) ∧
      l.foldl (fun gs x => pushGroup (label x) x gs) [] =
        rs.map fun r => (r, l.filter (label · = r)) := by
  induction l using List.reverseRecOn with
  | nil => exact ⟨[], nodup_nil, by simp, rfl⟩
  | append_singleton l x ih =>
    obtain ⟨rs, hnodup, hmem, hgroups⟩ := ih
    rw [foldl_concat, hgroups]
    by_cases hx : label x ∈ rs
    · refine ⟨rs, hnodup, ?_, ?_⟩
      · intro y hy
        rcases List.mem_append.mp hy with hy | hy
        · exact hmem y hy
        · exact List.mem_singleton.mp hy ▸ hx
      · rw [pushGroup_of_mem hnodup hx]
        refine map_congr_left fun r _ => ?_
        by_cases hr : r = label x
        · simp [hr, filter_append]
        · simp [hr, Ne.symm hr, filter_append]
    · refine ⟨rs ++ [label x], ?_, ?_, ?_⟩
      · simpa [nodup_append] using ⟨hnodup, fun y hy h => hx (h ▸ hy)⟩
      · intro y hy
        rcases List.mem_append.mp hy with hy | hy
        · exact mem_append_left _ (hmem y hy)
        · simp [List.mem_singleton.mp hy]
      · have hnone : l.filter (label · = label x) = [] := by
          rw [filter_eq_nil_iff]
          intro y hy heq
          exact hx (of_decide_eq_true heq ▸ hmem y hy)
        rw [pushGroup_of_not_mem hx, map_append]
        congr 1
        · refine map_congr_left fun r hr => ?_
          have hne : label x ≠ r := fun h => hx (h ▸ hr)
          simp [filter_append, hne]
        · simp [filter_append, hnone]

lemma foldl_findD (l : List (ℕ × α)) (uf : UnionFind) (gs : List (ℕ × List (ℕ × α))) :
    (l.foldl (fun s x => ((s.1.findD x.1).1, pushGroup (s.1.findD x.1).2 x s.2)) (uf, gs)).2 =
      l.foldl (fun gs x => pushGroup (uf.rootD x.1) x gs) gs := by
  induction l generalizing uf gs with
  | nil => rfl
  | cons x l ih =>
    have hroot (i : ℕ) : (uf.findD i).2 = uf.rootD i := by
      rw [findD]
      split_ifs with hlt
      · exact find_root_2 uf ⟨i, hlt⟩
      · rw [rootD, dif_neg hlt]
    have hkeep (i j : ℕ) : (uf.findD i).1.rootD j = uf.rootD j := by
      rw [findD]
      split_ifs with hlt
      · exact find_root_1 uf ⟨i, hlt⟩ j
      · rfl
    simp [ih, hroot, hkeep]

/-- The groups by root are the parts of the list with a common root. -/
theorem groupByRoot_eq (uf : UnionFind) (l : List (ℕ × α)) :
    ∃ rs : List ℕ, rs.Nodup ∧ (∀ x ∈ l, uf.rootD x.1 ∈ rs) ∧
      groupByRoot uf l = rs.map fun r => l.filter (uf.rootD ·.1 = r) := by
  obtain ⟨rs, hnodup, hmem, hgroups⟩ := foldl_pushGroup (fun x : ℕ × α => uf.rootD x.1) l
  refine ⟨rs, hnodup, hmem, ?_⟩
  rw [groupByRoot, foldl_findD, hgroups, map_map]
  rfl

/-- The parts of a list with different labels, taken together, are what has one of the labels. -/
lemma flatten_filter_perm (label : α → γ) (l : List α) {rs : List γ} (hnodup : rs.Nodup) :
    (rs.map fun r => l.filter (label · = r)).flatten.Perm (l.filter (label · ∈ rs)) := by
  induction rs with
  | nil => simp
  | cons r rs ih =>
    obtain ⟨hr, hnodup⟩ := List.nodup_cons.mp hnodup
    have hsplit := filter_append_perm (label · = r) (l.filter (label · ∈ r :: rs))
    have hfirst : (l.filter (label · ∈ r :: rs)).filter (label · = r) = l.filter (label · = r) := by
      rw [filter_filter]
      refine filter_congr fun x _ => ?_
      by_cases hx : label x = r <;> simp [hx]
    have hrest : (l.filter (label · ∈ r :: rs)).filter (fun x => !decide (label x = r)) =
        l.filter (label · ∈ rs) := by
      rw [filter_filter]
      refine filter_congr fun x _ => ?_
      by_cases hx : label x = r <;> simp [hx, hr]
    rw [hfirst, hrest] at hsplit
    exact ((ih hnodup).append_left _).trans hsplit

/-- Together the groups hold what the list holds. -/
theorem flatten_groupByRoot_perm (uf : UnionFind) (l : List (ℕ × α)) :
    (groupByRoot uf l).flatten.Perm l := by
  obtain ⟨rs, hnodup, hmem, hgroups⟩ := groupByRoot_eq uf l
  rw [hgroups]
  refine (flatten_filter_perm (fun x : ℕ × α => uf.rootD x.1) l hnodup).trans (.of_eq ?_)
  exact List.filter_eq_self.mpr fun x hx => decide_eq_true (hmem x hx)

end Groups

/-! ### Putting results back in order -/

section Order

variable {α : Type*}

/-- Results are sorted by the positions they carry. -/
lemma insertionSort_eq_of_perm {l m : List (ℕ × α)} (hperm : l.Perm m)
    (hm : (m.map Prod.fst).Pairwise (· < ·)) : (l.insertionSort fun a b => a.1 ≤ b.1) = m := by
  have hlt : m.Pairwise fun a b => a.1 < b.1 := List.pairwise_map.mp hm
  have hsorted : (l.insertionSort fun a b => a.1 ≤ b.1).Pairwise fun a b => a.1 ≤ b.1 :=
    pairwise_insertionSort (fun a b : ℕ × α => a.1 ≤ b.1) l
  refine List.Perm.eq_of_pairwise ?_ hsorted (hlt.imp fun h => h.le)
    ((perm_insertionSort _ l).trans hperm)
  intro a b ha hb hab hba
  have ha' : a ∈ m := hperm.mem_iff.mp ((mem_insertionSort _).mp ha)
  exact inj_on_of_nodup_map (hm.imp fun h => h.ne) ha' hb (le_antisymm hab hba)

end Order

end Core
