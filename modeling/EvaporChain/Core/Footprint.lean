import EvaporChain.Core.Grouping

/-!
# Footprints

A computation on a state made of cells has a footprint when it reads and writes only the cells of
some set. Computations with disjoint footprints do not notice each other: a list of them can be
cut into groups, each group run on its own copy of the cells it needs, and the copies merged
back, with the same results as running the whole list in order.
-/

namespace Core

open List

variable {σ κ ω ε α β ι γ δ : Type}

/-- The computation reads and writes only the cells in `K`; `cell s k` is the content of cell `k`
in state `s`. -/
structure Local (cell : σ → κ → ω) (K : Set κ) (m : StateM σ α) : Prop where
  frame : ∀ s, Set.EqOn (cell (m s).2) (cell s) Kᶜ
  value : ∀ {s s'}, Set.EqOn (cell s) (cell s') K → (m s).1 = (m s').1
  agree : ∀ {s s'}, Set.EqOn (cell s) (cell s') K → Set.EqOn (cell (m s).2) (cell (m s').2) K

namespace Local

variable {cell : σ → κ → ω} {K : Set κ}

lemma pure (a : α) : Local cell K (Pure.pure a : StateM σ α) where
  frame _ _ _ := rfl
  value _ := rfl
  agree h := h

lemma bind {m : StateM σ α} {f : α → StateM σ β} (hm : Local cell K m)
    (hf : ∀ a, Local cell K (f a)) : Local cell K (m >>= f) where
  frame s := ((hf (m s).1).frame (m s).2).trans (hm.frame s)
  value {s s'} h := by
    show (f (m s).1 (m s).2).1 = (f (m s').1 (m s').2).1
    rw [hm.value h]
    exact (hf _).value (hm.agree h)
  agree {s s'} h := by
    show Set.EqOn (cell (f (m s).1 (m s).2).2) (cell (f (m s').1 (m s').2).2) K
    rw [hm.value h]
    exact (hf _).agree (hm.agree h)

lemma mono {K' : Set κ} {m : StateM σ α} (h : Local cell K m) (hsub : K ⊆ K') :
    Local cell K' m where
  frame s := (h.frame s).mono (Set.compl_subset_compl.mpr hsub)
  value heq := h.value (heq.mono hsub)
  agree {s s'} heq := by
    intro k hk
    by_cases hkK : k ∈ K
    · exact h.agree (heq.mono hsub) hkK
    · rw [h.frame s hkK, h.frame s' hkK, heq hk]

lemma ite {c : Prop} [Decidable c] {m m' : StateM σ α} (hm : Local cell K m)
    (hm' : Local cell K m') : Local cell K (if c then m else m') := by
  split
  · exact hm
  · exact hm'

/-! Computations that may fail: the state reached before the failure is kept. -/

lemma throw (e : ε) : Local cell K (throwThe ε e : ExceptT ε (StateM σ) α).run := .pure _

lemma lift {m : StateM σ α} (hm : Local cell K m) :
    Local cell K (ExceptT.lift m : ExceptT ε (StateM σ) α).run :=
  hm.bind fun _ => .pure _

lemma andThen {m : ExceptT ε (StateM σ) α} {f : α → ExceptT ε (StateM σ) β}
    (hm : Local cell K m.run) (hf : ∀ a, Local cell K (f a).run) : Local cell K (m >>= f).run := by
  show Local cell K (m.run >>= ExceptT.bindCont f)
  refine hm.bind fun a => ?_
  cases a with
  | ok a => exact hf a
  | error e => exact .pure _

end Local

/-! ### Lists of computations -/

/-- Run a list of computations in order; the results are paired with their items. -/
def runAll (step : ι → StateM σ β) : List ι → StateM σ (List (ι × β))
  | [] => pure []
  | i :: l => do
    let b ← step i
    let bs ← runAll step l
    return (i, b) :: bs

section Runs

variable {cell : σ → κ → ω} {keys : ι → Set κ} {step : ι → StateM σ β} {l : List ι}

lemma map_fst_runAll (step : ι → StateM σ β) (l : List ι) (s : σ) :
    (runAll step l s).1.map Prod.fst = l := by
  induction l generalizing s with
  | nil => rfl
  | cons i l ih =>
    show i :: (runAll step l (step i s).2).1.map Prod.fst = i :: l
    rw [ih]

/-- Cells outside all footprints keep their content. -/
lemma cell_runAll_of_not_mem (hlocal : ∀ i ∈ l, Local cell (keys i) (step i)) {k : κ}
    (hk : ∀ i ∈ l, k ∉ keys i) (s : σ) : cell (runAll step l s).2 k = cell s k := by
  induction l generalizing s with
  | nil => rfl
  | cons i l ih =>
    show cell (runAll step l (step i s).2).2 k = cell s k
    rw [ih (fun j hj => hlocal j (.tail _ hj))
      (fun j hj => hk j (.tail _ hj))]
    exact (hlocal i (.head _)).frame s (hk i (.head _))

/-- A selection of the items that shares no cell with the rest can be run alone, from any state
that agrees on the cells it needs: the results are the same, and so are those cells. -/
theorem runAll_filter (p : ι → Bool) (hlocal : ∀ i ∈ l, Local cell (keys i) (step i)) {K : Set κ}
    (hin : ∀ i ∈ l, p i → keys i ⊆ K) (hout : ∀ i ∈ l, ¬ p i → Disjoint (keys i) K) {s s' : σ}
    (hagree : Set.EqOn (cell s) (cell s') K) :
    (runAll step l s).1.filter (fun x => p x.1) = (runAll step (l.filter p) s').1 ∧
      Set.EqOn (cell (runAll step l s).2) (cell (runAll step (l.filter p) s').2) K := by
  induction l generalizing s s' with
  | nil => exact ⟨rfl, hagree⟩
  | cons i l ih =>
    have hi := hlocal i (.head _)
    have ih' {t t' : σ} := @ih (fun j hj => hlocal j (.tail _ hj))
      (fun j hj => hin j (.tail _ hj))
      (fun j hj => hout j (.tail _ hj)) t t'
    show ((i, (step i s).1) :: (runAll step l (step i s).2).1).filter (fun x => p x.1) = _ ∧
      Set.EqOn (cell (runAll step l (step i s).2).2) _ K
    cases hp : p i with
    | true =>
      have hK := hi.mono (hin i mem_cons_self hp)
      obtain ⟨hresults, hcells⟩ := ih' (hK.agree hagree)
      rw [filter_cons_of_pos hp, filter_cons_of_pos (by simpa using hp), hresults,
        hK.value hagree]
      exact ⟨rfl, hcells⟩
    | false =>
      have hdisjoint := hout i mem_cons_self (by simp [hp])
      -- a step outside the selection leaves the cells in `K` alone
      have hstep : Set.EqOn (cell (step i s).2) (cell s') K := fun k hk =>
        (hi.frame s (Set.disjoint_right.mp hdisjoint hk)).trans (hagree hk)
      rw [filter_cons_of_neg (by simp [hp]), filter_cons_of_neg (by simp [hp])]
      exact ih' hstep

end Runs

/-! ### Groups -/

/-- A permutation of a mapped list is the map of a permutation. -/
lemma exists_perm_of_perm_map {f : α → β} {l : List α} {l' : List β} (h : l'.Perm (l.map f)) :
    ∃ l'' : List α, l''.Perm l ∧ l' = l''.map f := by
  have hmap : List.Forall₂ (fun b a => b = f a) (l.map f) l := by
    rw [← forall₂_map_right_iff, forall₂_eq_eq_eq]
  obtain ⟨l'', heq, hperm⟩ := perm_comp_forall₂ h hmap
  rw [← forall₂_map_right_iff, forall₂_eq_eq_eq] at heq
  exact ⟨l'', hperm, heq⟩

/-! ### Merging copies -/

section

variable {merge : δ → σ → δ} {look : δ → κ → α} {comb : ω → α → α} {blank : ω} {cell : σ → κ → ω}
  (hmerge : ∀ d s k, look (merge d s) k = comb (cell s k) (look d k))
  (hblank : ∀ x, comb blank x = x) {k : κ}

include hmerge hblank

/-- Merging copies that are blank at a cell leaves it as it is. -/
lemma look_foldl_of_blank {ss : List σ} (h : ∀ s ∈ ss, cell s k = blank) (d : δ) :
    look (ss.foldl merge d) k = look d k := by
  induction ss generalizing d with
  | nil => rfl
  | cons s ss ih =>
    rw [foldl_cons, ih fun t ht => h t (.tail _ ht), hmerge,
      h s (.head _), hblank]

/-- Merging copies of which only one is not blank at a cell. -/
lemma look_foldl_of_nodup [DecidableEq γ] {rs : List γ} (hnodup : rs.Nodup) {copy : γ → σ} {r : γ}
    (hr : r ∈ rs) (h : ∀ r' ∈ rs, r' ≠ r → cell (copy r') k = blank) (d : δ) :
    look ((rs.map copy).foldl merge d) k = comb (cell (copy r) k) (look d k) := by
  obtain ⟨rs₁, rs₂, rfl⟩ := append_of_mem hr
  have hne : r ∉ rs₁ ∧ r ∉ rs₂ := by
    have := List.nodup_middle.mp hnodup
    simpa using (List.nodup_cons.mp this).1
  have hblank₁ : ∀ s ∈ rs₁.map copy, cell s k = blank := by
    intro s hs
    obtain ⟨r', hr', rfl⟩ := List.mem_map.mp hs
    exact h r' (by simp [hr']) fun heq => hne.1 (heq ▸ hr')
  have hblank₂ : ∀ s ∈ rs₂.map copy, cell s k = blank := by
    intro s hs
    obtain ⟨r', hr', rfl⟩ := List.mem_map.mp hs
    exact h r' (by simp [hr']) fun heq => hne.2 (heq ▸ hr')
  rw [map_append, map_cons, foldl_append, foldl_cons,
    look_foldl_of_blank hmerge hblank hblank₂, hmerge, look_foldl_of_blank hmerge hblank hblank₁]

end

/-! ### Independence of groups -/

section Independence

variable [DecidableEq γ] {cell : σ → κ → ω} {keys : ι → Set κ} {step : ι → StateM σ β} {l : List ι}
  {label : ι → γ} {load : List ι → σ} {base : κ → ω} {blank : ω}

/-- What is needed to run the groups of a list apart: each item works on its own cells, items with
different labels share none, and a copy loaded for some items holds just the cells they need. -/
structure Separated (cell : σ → κ → ω) (keys : ι → Set κ) (step : ι → StateM σ β) (l : List ι)
    (label : ι → γ) (load : List ι → σ) (base : κ → ω) (blank : ω) : Prop where
  isLocal : ∀ i ∈ l, Local cell (keys i) (step i)
  disjoint : ∀ i ∈ l, ∀ j ∈ l, label i ≠ label j → Disjoint (keys i) (keys j)
  load_of_mem : ∀ l' i k, i ∈ l' → k ∈ keys i → cell (load l') k = base k
  load_of_not_mem : ∀ l' k, (∀ i ∈ l', k ∉ keys i) → cell (load l') k = blank

def runGroup (step : ι → StateM σ β) (load : List ι → σ) (l : List ι) (label : ι → γ) (r : γ) :
    List (ι × β) × σ :=
  runAll step (l.filter (label · = r)) (load (l.filter (label · = r)))

variable (h : Separated cell keys step l label load base blank)

include h

lemma Separated.runGroup_eq (r : γ) :
    (runAll step l (load l)).1.filter (fun x => label x.1 = r) = (runGroup step load l label r).1 ∧
      ∀ i ∈ l, label i = r → Set.EqOn (cell (runAll step l (load l)).2)
        (cell (runGroup step load l label r).2) (keys i) := by
  -- the cells of the group
  let K : Set κ := {k | ∃ i ∈ l, label i = r ∧ k ∈ keys i}
  have hagree : Set.EqOn (cell (load l)) (cell (load (l.filter (label · = r)))) K := by
    rintro k ⟨i, hi, hlabel, hk⟩
    rw [h.load_of_mem l i k hi hk,
      h.load_of_mem _ i k (List.mem_filter.mpr ⟨hi, decide_eq_true hlabel⟩) hk]
  have hin : ∀ i ∈ l, decide (label i = r) → keys i ⊆ K := fun i hi hp k hk =>
    ⟨i, hi, of_decide_eq_true hp, hk⟩
  have hout : ∀ i ∈ l, ¬ decide (label i = r) → Disjoint (keys i) K := by
    intro i hi hp
    rw [Set.disjoint_left]
    rintro k hki ⟨j, hj, hlabel, hkj⟩
    have hne : label i ≠ label j := by
      rw [hlabel]
      simpa using hp
    exact Set.disjoint_left.mp (h.disjoint i hi j hj hne) hki hkj
  obtain ⟨hresults, hcells⟩ := runAll_filter _ h.isLocal hin hout hagree
  exact ⟨hresults, fun i hi hlabel k hk => hcells ⟨i, hi, hlabel, hk⟩⟩

/-- The groups together give the results of the whole list. -/
theorem Separated.perm_results {rs : List γ} (hnodup : rs.Nodup) (hrs : ∀ i ∈ l, label i ∈ rs) :
    (rs.flatMap fun r => (runGroup step load l label r).1).Perm (runAll step l (load l)).1 := by
  have hgroups : (rs.flatMap fun r => (runGroup step load l label r).1) =
      rs.flatMap fun r => (runAll step l (load l)).1.filter (fun x => label x.1 = r) :=
    flatMap_congr fun r _ => (h.runGroup_eq r).1.symm
  rw [hgroups]
  refine (flatten_filter_perm (fun x : ι × β => label x.1) _ hnodup).trans (.of_eq ?_)
  refine filter_eq_self.mpr fun x hx => decide_eq_true (hrs x.1 ?_)
  rw [← map_fst_runAll step l (load l)]
  exact mem_map_of_mem hx

/-- Merging the copies of the groups, in any order, is merging the copy of the whole list. -/
theorem Separated.look_merge {merge : δ → σ → δ} {look : δ → κ → α} {comb : ω → α → α}
    (hmerge : ∀ d s k, look (merge d s) k = comb (cell s k) (look d k))
    (hblank : ∀ x, comb blank x = x) {rs : List γ} (hnodup : rs.Nodup) (hrs : ∀ i ∈ l, label i ∈ rs)
    (d : δ) (k : κ) :
    look ((rs.map fun r => (runGroup step load l label r).2).foldl merge d) k =
      look (merge d (runAll step l (load l)).2) k := by
  have hother (r : γ) (hk : ∀ i ∈ l, label i = r → k ∉ keys i) :
      cell (runGroup step load l label r).2 k = blank := by
    have hmem {i : ι} (hi : i ∈ l.filter (label · = r)) : i ∈ l ∧ k ∉ keys i := by
      obtain ⟨hi, hlabel⟩ := List.mem_filter.mp hi
      exact ⟨hi, hk i hi (of_decide_eq_true hlabel)⟩
    rw [runGroup, cell_runAll_of_not_mem (fun i hi => h.isLocal i (hmem hi).1)
      (fun i hi => (hmem hi).2), h.load_of_not_mem _ k fun i hi => (hmem hi).2]
  by_cases hk : ∃ i ∈ l, k ∈ keys i
  · obtain ⟨i, hi, hki⟩ := hk
    rw [look_foldl_of_nodup hmerge hblank hnodup (hrs i hi), hmerge,
      ((h.runGroup_eq (label i)).2 i hi rfl hki)]
    intro r _ hr
    refine hother r fun j hj hlabel => ?_
    exact Set.disjoint_left.mp (h.disjoint i hi j hj (by rw [hlabel]; exact hr.symm)) hki
  · push Not at hk
    rw [look_foldl_of_blank hmerge hblank, hmerge, cell_runAll_of_not_mem h.isLocal hk,
      h.load_of_not_mem l k hk, hblank]
    intro s hs
    obtain ⟨r, -, rfl⟩ := List.mem_map.mp hs
    exact hother r fun i hi _ => hk i hi

end Independence

end Core
