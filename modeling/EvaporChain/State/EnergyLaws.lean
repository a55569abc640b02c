import EvaporChain.Execution.Ledger

/-!
# Laws of decay

Energy never grows with time and keeps the order of the initial energies, although both the
halvings and the interpolation between them round down. It is gone exactly when
`epochsUntilZero` says so.
-/

namespace EvaporChain

open Core Nat

/-- Epochs until no energy is left, in unchecked `u64` arithmetic. -/
def epochsUntilZero (energy halfLife : ℕ) : ℕ :=
  if energy = 0 ∨ halfLife = 0 then 0 else (energy.log2 + 1) * halfLife % 2 ^ 64

lemma energyAtEpoch_le (e h n : ℕ) : energyAtEpoch e h n ≤ e := by
  simp only [energyAtEpoch]
  split_ifs
  · exact zero_le e
  · exact zero_le e
  · exact (sub_le _ _).trans (Nat.div_le_self _ _)

section

variable {e h : ℕ} (he : e < 2 ^ 64) (hh : 0 < h)

include he hh

variable (n : ℕ)

/-- The bound on the number of halvings makes no difference. -/
lemma energyAtEpoch_eq :
    energyAtEpoch e h n = e / 2 ^ (n / h) - e / 2 ^ (n / h) * (n % h) / (2 * h) := by
  rw [energyAtEpoch, if_neg hh.ne']
  dsimp only
  split_ifs with hmany
  · have hlt : e < 2 ^ (n / h) := he.trans_le (Nat.pow_le_pow_right two_pos hmany)
    simp [div_eq_of_lt hlt]
  · rfl

/-- After whole half-lives decay begins anew. -/
lemma energyAtEpoch_halved (k n : ℕ) :
    energyAtEpoch (e / 2 ^ k) h n = energyAtEpoch e h (h * k + n) := by
  rw [energyAtEpoch_eq ((Nat.div_le_self _ _).trans_lt he) hh, energyAtEpoch_eq he hh,
    mul_add_div hh, mul_add_mod, Nat.div_div_eq_div_mul, ← pow_add]

lemma energyAtEpoch_eq_zero_iff :
    energyAtEpoch e h n = 0 ↔ e = 0 ∨ (e.log2 + 1) * h ≤ n := by
  have hhalved : e / 2 ^ (n / h) = 0 ↔ e = 0 ∨ (e.log2 + 1) * h ≤ n := by
    rw [div_eq_zero_iff_lt (Nat.two_pow_pos _), ← Nat.le_div_iff_mul_le hh]
    rcases Nat.eq_zero_or_pos e with rfl | hpos
    · simp
    · rw [← log2_lt hpos.ne']
      omega
  rw [← hhalved, energyAtEpoch_eq he hh]
  -- the interpolation takes less than half of what the halvings leave
  rcases Nat.eq_zero_or_pos (e / 2 ^ (n / h)) with hzero | hpos
  · simp [hzero]
  · have hlt : e / 2 ^ (n / h) * (n % h) / (2 * h) < e / 2 ^ (n / h) := by
      have hmod := mod_lt n hh
      rw [Nat.div_lt_iff_lt_mul (by omega)]
      exact Nat.mul_lt_mul_of_pos_left (by omega) hpos
    omega

/-- Nothing has decayed within the first half-life while the interpolation rounds to nothing. -/
lemma energyAtEpoch_eq_self_iff :
    energyAtEpoch e h n = e ↔ e = 0 ∨ n < h ∧ e * n < 2 * h := by
  rw [energyAtEpoch_eq he hh]
  rcases lt_or_ge n h with hlt | hge
  · rw [div_eq_of_lt hlt, mod_eq_of_lt hlt, pow_zero, Nat.div_one, and_iff_right hlt,
      ← div_eq_zero_iff_lt (by omega)]
    generalize e * n / (2 * h) = loss
    omega
  · have hhalf : e / 2 ^ (n / h) ≤ e / 2 ^ 1 :=
      div_le_div_left (Nat.pow_le_pow_right two_pos (Nat.div_pos hge hh)) two_pos
    generalize e / 2 ^ (n / h) * (n % h) / (2 * h) = loss
    omega

lemma energyAtEpoch_succ_le : energyAtEpoch e h (n + 1) ≤ energyAtEpoch e h n := by
  rw [energyAtEpoch_eq he hh, energyAtEpoch_eq he hh]
  have hsplit := div_add_mod n h
  have hmod := mod_lt n hh
  by_cases hlast : n % h + 1 = h
  · -- the next halving leaves no more than the interpolation did
    have hnext : n + 1 = h * (n / h + 1) := by
      rw [mul_succ]
      omega
    have hle : e / 2 ^ (n / h) * (n % h) / (2 * h) ≤ e / 2 ^ (n / h) / 2 := by
      rw [mul_comm 2, ← Nat.div_div_eq_div_mul]
      refine Nat.div_le_div_right (Nat.div_le_of_le_mul ?_)
      rw [mul_comm h]
      exact Nat.mul_le_mul_left _ hmod.le
    rw [hnext, Nat.mul_div_cancel_left _ hh, mul_mod_right, pow_succ,
      ← Nat.div_div_eq_div_mul, mul_zero, Nat.zero_div, Nat.sub_zero]
    omega
  · have hlt : n % h + 1 < h := by omega
    have hnext : n + 1 = h * (n / h) + (n % h + 1) := by omega
    rw [hnext, mul_add_div hh, mul_add_mod, div_eq_of_lt hlt, mod_eq_of_lt hlt]
    exact Nat.sub_le_sub_left (Nat.div_le_div_right (Nat.mul_le_mul_left _ (le_succ _))) _

lemma energyAtEpoch_anti {n m : ℕ} (hle : n ≤ m) : energyAtEpoch e h m ≤ energyAtEpoch e h n :=
  antitone_nat_of_succ_le (energyAtEpoch_succ_le he hh) hle

end

lemma energyAtEpoch_mono {e e' h : ℕ} (he' : e' < 2 ^ 64) (hh : 0 < h) (hle : e ≤ e') (n : ℕ) :
    energyAtEpoch e h n ≤ energyAtEpoch e' h n := by
  rw [energyAtEpoch_eq (hle.trans_lt he') hh, energyAtEpoch_eq he' hh]
  obtain ⟨d, hd⟩ := Nat.exists_eq_add_of_le (Nat.div_le_div_right (c := 2 ^ (n / h)) hle)
  -- the rounding loss grows by no more than the energy
  have hloss : (e / 2 ^ (n / h) + d) * (n % h) / (2 * h) ≤
      e / 2 ^ (n / h) * (n % h) / (2 * h) + d := by
    have hmod := mod_lt n hh
    rw [← add_mul_div_right _ _ (by omega : 0 < 2 * h), Nat.add_mul]
    exact Nat.div_le_div_right (Nat.add_le_add_left (Nat.mul_le_mul_left d (by omega)) _)
  rw [hd]
  omega

/-- The laws of decay, for words of 64 bits. The first line says that the products fit into 128 bits
and the interpolation into 64. -/
theorem energy_at_epoch_laws (e e' h n m : ℕ) (he : e < 2 ^ 64) (he' : e' < 2 ^ 64)
    (hh : h < 2 ^ 64) (hpos : 1 ≤ h) :
    (e / 2 ^ (n / h) * (n % h) < 2 ^ 128 ∧ 2 * h < 2 ^ 128 ∧
      e / 2 ^ (n / h) * (n % h) / (2 * h) < 2 ^ 64) ∧
    energyAtEpoch e h 0 = e ∧
    (n ≤ m → energyAtEpoch e h m ≤ energyAtEpoch e h n) ∧
    (e ≤ e' → energyAtEpoch e h n ≤ energyAtEpoch e' h n) ∧
    energyAtEpoch e h (n + h) = energyAtEpoch (e / 2) h n ∧
    (e = 0 ∨ (e.log2 + 1) * h < 2 ^ 64 → (energyAtEpoch e h n = 0 ↔ epochsUntilZero e h ≤ n)) := by
  have hle : e / 2 ^ (n / h) ≤ e := Nat.div_le_self _ _
  have hmod := mod_lt n hpos
  refine ⟨⟨?_, by omega, ?_⟩, ?_, energyAtEpoch_anti he hpos, (energyAtEpoch_mono he' hpos · n),
    ?_, fun hfits => ?_⟩
  · calc e / 2 ^ (n / h) * (n % h) < 2 ^ 64 * 2 ^ 64 :=
          Nat.mul_lt_mul'' (hle.trans_lt he) (hmod.trans hh)
      _ = 2 ^ 128 := by norm_num
  · refine lt_of_le_of_lt (Nat.div_le_of_le_mul ?_) he
    rw [mul_comm (2 * h)]
    exact Nat.mul_le_mul hle (by omega)
  · simp [energyAtEpoch_eq he hpos]
  · simpa [add_comm] using (energyAtEpoch_halved he hpos 1 n).symm
  · rw [energyAtEpoch_eq_zero_iff he hpos, epochsUntilZero]
    by_cases hzero : e = 0
    · simp [hzero]
    · rw [if_neg (by omega), mod_eq_of_lt (hfits.resolve_left hzero)]
      simp [hzero]

theorem energy_at_epoch_laws_seven : energyAtEpoch 5 3 4 ≤ energyAtEpoch 7 3 4 ∧
    (energyAtEpoch 5 3 4 = 0 ↔ epochsUntilZero 5 3 ≤ 4) :=
  have h := energy_at_epoch_laws 5 7 3 4 9 (by decide) (by decide) (by decide) (by decide)
  ⟨h.2.2.2.1 (by decide), h.2.2.2.2.2 (.inr (by decide))⟩

end EvaporChain
