import Mathlib

/-!
# Indexes with deferred writes

A store of entries is mirrored in an index under derived keys. A change of the store is written to
the index at once, or its entry is marked and written later.
-/

namespace Core

namespace WriteBack

variable {E K V : Type} {key : E → K} {N : Set E} {get get' : K → Option V}
  {value value' : E → Option V} {dirty dirty' : Set E}

/-- The index has the value of every entry that is not marked, and nothing under other keys. -/
structure Agrees (key : E → K) (N : Set E) (get : K → Option V) (value : E → Option V)
    (dirty : Set E) : Prop where
  fresh : ∀ e ∈ N, e ∉ dirty → get (key e) = value e
  only : ∀ k, (∀ e ∈ N, key e ≠ k) → get k = none

/-- An entry is written to the index. -/
lemma Agrees.write [DecidableEq K] (h : Agrees key N get value dirty) (hkey : Set.InjOn key N)
    {e : E} (he : e ∈ N) (hget : ∀ k, get' k = if k = key e then value' e else get k)
    (hvalue : ∀ e' ≠ e, value' e' = value e') (hdirty : ∀ e' ≠ e, e' ∈ dirty → e' ∈ dirty') :
    Agrees key N get' value' dirty' where
  fresh := by
    intro e' he' hnot
    rw [hget]
    split_ifs with heq
    · rw [hkey he' he heq]
    · have hne : e' ≠ e := fun h => heq (by rw [h])
      rw [hvalue e' hne]
      exact h.fresh e' he' fun hmem => hnot (hdirty e' hne hmem)
  only := by
    intro k hk
    rw [hget, if_neg fun heq => hk e he heq.symm]
    exact h.only k hk

/-- An entry is marked instead. -/
lemma Agrees.mark (h : Agrees key N get value dirty) {e : E}
    (hvalue : ∀ e' ≠ e, value' e' = value e') (hdirty : dirty ⊆ dirty')
    (he : e ∈ dirty' ∨ value' e = value e) : Agrees key N get value' dirty' where
  fresh := by
    intro e' he' hnot
    have hsame : value' e' = value e' := by
      by_cases heq : e' = e
      · subst heq
        exact he.resolve_left hnot
      · exact hvalue e' heq
    rw [hsame]
    exact h.fresh e' he' fun hmem => hnot (hdirty hmem)
  only := h.only

/-- Without marks the index is determined by the store. -/
lemma Agrees.get_eq_some (h : Agrees key N get value ∅) (hstored : ∀ e, (value e).isSome → e ∈ N)
    (k : K) (v : V) : get k = some v ↔ ∃ e, key e = k ∧ value e = some v := by
  constructor
  · intro hget
    by_contra hnone
    push Not at hnone
    have hempty : get k = none := by
      refine h.only k fun e he hk => ?_
      subst hk
      exact hnone e rfl ((h.fresh e he (Set.notMem_empty e)).symm.trans hget)
    rw [hempty] at hget
    cases hget
  · rintro ⟨e, rfl, hvalue⟩
    have he : e ∈ N := hstored e (by rw [hvalue]; rfl)
    rw [h.fresh e he (Set.notMem_empty e), hvalue]

end WriteBack

end Core
