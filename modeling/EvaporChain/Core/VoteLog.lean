import Mathlib

/-!
# Logs of two-phase votes with locks

A log lists prevotes and precommits of trusted voters, newest first. A log is lawful when each
vote respects the ones cast before it: a precommit needs a quorum of prevotes for its value, and a
voter that precommitted a value prevotes another one later only if it precommitted that other
value in between. On lawful logs, two values with a quorum of precommits are equal.
-/

namespace Core

open List

/-- A vote for a value in a round. -/
inductive Ballot (V B : Type*)
  | prevote (voter : V) (round : ℕ) (value : B)
  | precommit (voter : V) (round : ℕ) (value : B)

variable {V B : Type*} (Quorum : Finset V → Prop) (log : List (Ballot V B))

def HasPolka (round : ℕ) (value : B) : Prop :=
  ∃ S, Quorum S ∧ ∀ v ∈ S, .prevote v round value ∈ log

def Decides (round : ℕ) (value : B) : Prop :=
  ∃ S, Quorum S ∧ ∀ v ∈ S, .precommit v round value ∈ log

/-- Whether a vote may be cast after the votes of `log`. -/
def Castable : Ballot V B → Prop
  | .prevote v round value =>
    ∀ round' value', .precommit v round' value' ∈ log → round' < round → value' ≠ value →
      ∃ round'', round' < round'' ∧ round'' ≤ round ∧ .precommit v round'' value ∈ log
  | .precommit v round value =>
    HasPolka Quorum log round value ∧
      (∀ round' value', .prevote v round' value' ∈ log → round' ≤ round) ∧
      ∀ value', .precommit v round value' ∈ log → value' = value

/-- Every vote was castable when it was cast. -/
def Lawful : List (Ballot V B) → Prop
  | [] => True
  | b :: log => Castable Quorum log b ∧ Lawful log

variable {Quorum} {log : List (Ballot V B)}

lemma Lawful.castable {newer older : List (Ballot V B)} {b : Ballot V B}
    (h : Lawful Quorum (newer ++ b :: older)) : Castable Quorum older b := by
  induction newer with
  | nil => exact h.1
  | cons _ newer ih => exact ih h.2

lemma Decides.mono {log' : List (Ballot V B)} {round : ℕ} {value : B}
    (h : Decides Quorum log round value) (hsub : log ⊆ log') : Decides Quorum log' round value := by
  obtain ⟨S, hS, hvotes⟩ := h
  exact ⟨S, hS, fun v hv => hsub (hvotes v hv)⟩

/-- A voter precommits at most one value per round. -/
lemma Lawful.precommit_unique (h : Lawful Quorum log) {v : V} {round : ℕ} {x y : B}
    (hx : .precommit v round x ∈ log) (hy : .precommit v round y ∈ log) : x = y := by
  induction log with
  | nil => cases hx
  | cons b log ih =>
    rcases List.mem_cons.mp hx with rfl | hx'
    · rcases List.mem_cons.mp hy with hy' | hy'
      · cases hy'
        rfl
      · exact (h.1.2.2 y hy').symm
    · rcases List.mem_cons.mp hy with rfl | hy'
      · exact h.1.2.2 x hx'
      · exact ih h.2 hx' hy'

/-- A voter's precommit precedes its prevotes of later rounds. -/
lemma Lawful.precommit_mem_older {newer older : List (Ballot V B)} {v : V} {r r' : ℕ} {x y : B}
    (h : Lawful Quorum (newer ++ .prevote v r' y :: older)) (hlt : r < r')
    (hx : .precommit v r x ∈ newer ++ .prevote v r' y :: older) : .precommit v r x ∈ older := by
  rcases List.mem_append.mp hx with hx | hx
  · obtain ⟨a, b, rfl⟩ := append_of_mem hx
    rw [append_assoc] at h
    have hle := h.castable.2.1 r' y (by simp)
    omega
  · simpa using hx

variable (hinter : ∀ S T, Quorum S → Quorum T → ∃ v, v ∈ S ∧ v ∈ T)

include hinter

/-- Once a value is decided, no other value gets a quorum of prevotes in a later round. -/
lemma Lawful.not_hasPolka
    {r : ℕ} {x : B} (hlaw : Lawful Quorum log) (hdec : Decides Quorum log r x) (n : ℕ) :
    ∀ newer older, log = newer ++ older → older.length ≤ n → ∀ r' y, r < r' → y ≠ x →
      ¬ HasPolka Quorum older r' y := by
  obtain ⟨S, hS, hprecommits⟩ := hdec
  -- induction on the age of the quorum of prevotes
  induction n with
  | zero =>
    rintro newer older - hlen r' y - - ⟨T, hT, hprevotes⟩
    obtain ⟨v, hv, -⟩ := hinter T T hT hT
    have hmem := hprevotes v hv
    rw [List.length_eq_zero_iff.mp (Nat.le_zero.mp hlen)] at hmem
    cases hmem
  | succ n ih =>
    rintro newer older rfl hlen r' y hlt hne ⟨T, hT, hprevotes⟩
    -- someone precommitted `x` in round `r` and prevoted `y` in round `r'`
    obtain ⟨v, hvS, hvT⟩ := hinter S T hS hT
    obtain ⟨a, before, rfl⟩ := append_of_mem (hprevotes v hvT)
    rw [← append_assoc] at hlaw hprecommits
    have hold := hlaw.precommit_mem_older hlt (hprecommits v hvS)
    -- so it precommitted `y` in between, on an older quorum of prevotes
    obtain ⟨r'', hlt', -, hy⟩ := hlaw.castable r x hold hlt hne.symm
    obtain ⟨b, oldest, rfl⟩ := append_of_mem hy
    have hsplit : newer ++ a ++ .prevote v r' y :: (b ++ .precommit v r'' y :: oldest) =
        (newer ++ a ++ .prevote v r' y :: b) ++ .precommit v r'' y :: oldest := by simp
    rw [hsplit] at hlaw
    refine ih (newer ++ a ++ .prevote v r' y :: b ++ [.precommit v r'' y]) oldest (by simp) ?_
      r'' y hlt' hne hlaw.castable.1
    simp only [length_append, length_cons] at hlen
    omega

/-- Two decided values are equal. -/
theorem Lawful.decides_unique (hlaw : Lawful Quorum log) {r r' : ℕ} {x y : B}
    (hx : Decides Quorum log r x) (hy : Decides Quorum log r' y) : x = y := by
  -- a decision in a later round rests on a quorum of prevotes
  have hlater {r r' : ℕ} {x y : B} (hlt : r < r') (hx : Decides Quorum log r x)
      (hy : Decides Quorum log r' y) : y = x := by
    by_contra hne
    obtain ⟨T, hT, hprecommits⟩ := hy
    obtain ⟨v, hv, -⟩ := hinter T T hT hT
    obtain ⟨newer, older, rfl⟩ := append_of_mem (hprecommits v hv)
    refine hlaw.not_hasPolka hinter hx older.length (newer ++ [.precommit v r' y]) older (by simp)
      le_rfl r' y hlt hne hlaw.castable.1
  rcases lt_trichotomy r r' with hlt | rfl | hlt
  · exact (hlater hlt hx hy).symm
  · obtain ⟨S, hS, hS'⟩ := hx
    obtain ⟨T, hT, hT'⟩ := hy
    obtain ⟨v, hvS, hvT⟩ := hinter S T hS hT
    exact hlaw.precommit_unique (hS' v hvS) (hT' v hvT)
  · exact hlater hlt hy hx

end Core
