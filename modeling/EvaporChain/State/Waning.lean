import EvaporChain.State.DecayCurves
import EvaporChain.State.EnergyLaws

/-!
# Curves that only fall

Objects are created with any curve. On the curves with a formula energy never grows; steps and
programs can lead upwards. A `Trend` tells of a program, before it is run, that it does not.
-/

namespace EvaporChain

open Core

/-- From `first` on, no threshold that is reached leads to a level above the one before it. -/
def StepsDown : ℕ → List (ℕ × ℕ) → ℕ → Prop
  | _, [], _ => True
  | first, (threshold, level) :: thresholds, energy =>
    threshold < 2 ^ 64 → (first < threshold → steppedEnergy threshold thresholds level ≤ energy) ∧
        StepsDown (max first threshold) thresholds level

/-- A curve on which an initial energy only falls. -/
def DecayCurve.Wanes (initial : ℕ) : DecayCurve → Prop
  | .exponential _ | .linear _ | .asymptotic _ _ => True
  | .stepped thresholds =>
    StepsDown 1 thresholds initial ∧ steppedEnergy 1 thresholds initial ≤ initial
  | .conditional base _ => base.Wanes initial
  | .custom bytecode => ∀ s t, 1 ≤ s → s ≤ t → t < 2 ^ 64 →
    (evaluateCustom bytecode initial t).getD 0 ≤ (evaluateCustom bytecode initial s).getD 0 ∧
      (evaluateCustom bytecode initial s).getD 0 ≤ initial

/-- Energy that falls, in the words of 64 bits from `first` on. -/
def Falls (first initial : ℕ) (energy : ℕ → ℕ) : Prop :=
  ∀ s t, first ≤ s → s ≤ t → t < 2 ^ 64 → energy t ≤ energy s ∧ energy s ≤ initial

lemma stepsDown_iff {first : ℕ} {thresholds : List (ℕ × ℕ)} {energy : ℕ} (hfirst : first < 2 ^ 64) :
    StepsDown first thresholds energy ↔ ∀ s t, first ≤ s → s ≤ t → t < 2 ^ 64 →
      steppedEnergy t thresholds energy ≤ steppedEnergy s thresholds energy := by
  induction thresholds generalizing first energy with
  | nil => simp [StepsDown, steppedEnergy]
  | cons x thresholds ih =>
    obtain ⟨threshold, level⟩ := x
    simp only [StepsDown, steppedEnergy]
    by_cases hreached : threshold < 2 ^ 64
    · rw [ih (max_lt hfirst hreached)]
      refine ⟨fun h s t hs hst ht => ?_, fun h _ => ⟨fun hlt => ?_, fun s t hs hst ht => ?_⟩⟩
      · obtain ⟨hstep, hrest⟩ := h hreached
        split_ifs with h₁ h₂
        · exact hrest s t (max_le hs h₂) hst ht
        · exact (hrest threshold t (by omega) h₁ ht).trans (hstep (by omega))
        · omega
        · exact le_rfl
      · simpa [not_le.mpr hlt] using h first threshold le_rfl hlt.le hreached
      · have hs' := max_le_iff.mp hs
        simpa [hs'.2, hs'.2.trans hst] using h s t hs'.1 hst ht
    · refine iff_of_true (fun h => absurd h hreached) fun s t _ hst ht => ?_
      rw [if_neg (by omega), if_neg (by omega)]

/-- All epochs count in which nobody has had access; an access takes away the last ones. -/
lemma effectiveElapsed_mono (grace : ℕ) (last : Option ℕ) {s t : ℕ} (h : s ≤ t) :
    effectiveElapsed s grace last ≤ effectiveElapsed t grace last := by
  cases last with
  | none => exact h
  | some last =>
    simp only [effectiveElapsed]
    split_ifs <;> omega

lemma effectiveElapsed_le (grace : ℕ) (last : Option ℕ) (t : ℕ) :
    effectiveElapsed t grace last ≤ t := by
  cases last with
  | none => exact le_rfl
  | some last =>
    simp only [effectiveElapsed]
    split_ifs <;> omega

/-- Before the first epoch an object has its initial energy. -/
lemma falls_zero_iff {initial : ℕ} {f g : ℕ → ℕ} (hzero : f 0 = initial)
    (hpos : ∀ t, 0 < t → f t = g t) : Falls 0 initial f ↔ Falls 1 initial g := by
  refine ⟨fun h s t hs hst ht => ?_, fun h s t _ hst ht => ?_⟩
  · rw [← hpos s hs, ← hpos t (by omega)]
    exact h s t (Nat.zero_le s) hst ht
  · have hle (n : ℕ) (hn : n ≤ t) : f n ≤ initial := by
      rcases Nat.eq_zero_or_pos n with rfl | hn'
      · exact hzero.le
      · exact hpos n hn' ▸ (h n n hn' le_rfl (by omega)).2
    refine ⟨?_, hle s hst⟩
    rcases eq_zero_or_pos s with rfl | hs
    · exact hzero ▸ hle t le_rfl
    · rw [hpos s hs, hpos t (by omega)]
      exact (h s t hs hst ht).1

lemma falls_energyAtEpoch {initial : ℕ} (h : initial < 2 ^ 64) (halfLife : ℕ) :
    Falls 1 initial (energyAtEpoch initial halfLife) := by
  intro s t _ hst _
  refine ⟨?_, energyAtEpoch_le ..⟩
  rcases eq_zero_or_pos halfLife with rfl | hlife
  · simp [energyAtEpoch]
  · exact energyAtEpoch_anti h hlife hst

lemma computeEnergy_of_idle {initial t : ℕ} (h : initial = 0 ∨ t = 0) (curve : DecayCurve)
    (last : Option ℕ) : computeEnergy curve initial t last = initial := by
  cases curve <;> rw [computeEnergy, if_pos h]

section

variable {initial : ℕ} (hinitial : initial < 2 ^ 64) (hpos : 0 < initial)

include hinitial hpos

/-- Without an access. -/
lemma falls_iff_wanes (curve : DecayCurve) :
    Falls 0 initial (computeEnergy curve initial · none) ↔ curve.Wanes initial := by
  have hzero := @computeEnergy_of_idle initial 0 (.inr rfl) curve none
  have hlive (t : ℕ) (ht : 0 < t) : ¬(initial = 0 ∨ t = 0) := by omega
  induction curve with
  | exponential halfLife =>
    rw [falls_zero_iff hzero fun t ht => by rw [computeEnergy, if_neg (hlive t ht)]]
    exact iff_of_true (falls_energyAtEpoch hinitial halfLife) trivial
  | linear rate =>
    rw [falls_zero_iff hzero fun t ht => by rw [computeEnergy, if_neg (hlive t ht)]]
    refine iff_of_true (fun s t _ hst _ => ?_) trivial
    exact ⟨Nat.sub_le_sub_left (Nat.mul_le_mul_left rate hst) initial, Nat.sub_le ..⟩
  | stepped thresholds =>
    rw [falls_zero_iff hzero fun t ht => by rw [computeEnergy, if_neg (hlive t ht)]]
    rw [DecayCurve.Wanes, stepsDown_iff (by decide)]
    refine ⟨fun h => ⟨fun s t hs hst ht => (h s t hs hst ht).1,
        (h 1 1 le_rfl le_rfl (by decide)).2⟩,
      fun h s t hs hst ht => ⟨h.1 s t hs hst ht, ?_⟩⟩
    exact (h.1 1 s le_rfl hs (by omega)).trans h.2
  | conditional base grace ih =>
    have hbase (t : ℕ) :
        computeEnergy (.conditional base grace) initial t none =
          computeEnergy base initial t none := by
      rw [computeEnergy]
      split_ifs with h
      · exact (computeEnergy_of_idle h base none).symm
      · rfl
    simp only [hbase]
    exact ih (computeEnergy_of_idle (.inr rfl) base none)
  | asymptotic floor halfLife =>
    rw [falls_zero_iff hzero fun t ht => by rw [computeEnergy, if_neg (hlive t ht)]]
    refine iff_of_true (fun s t hs hst ht => ?_) trivial
    dsimp only
    split_ifs with hfloor
    · exact ⟨le_rfl, le_rfl⟩
    · have habove : initial - floor < 2 ^ 64 := by omega
      have hfalls := falls_energyAtEpoch habove halfLife s t hs hst ht
      simp only [satAdd]
      omega
  | custom bytecode =>
    rw [falls_zero_iff hzero fun t ht => by rw [computeEnergy, if_neg (hlive t ht)]]
    rfl

end

/-- An access counts as fewer epochs without one. -/
lemma exists_counted (curve : DecayCurve) (initial : ℕ) (last : Option ℕ) :
    ∃ counted : ℕ → ℕ, Monotone counted ∧ (∀ t, counted t ≤ t) ∧
      ∀ t, computeEnergy curve initial t last = computeEnergy curve initial (counted t) none := by
  cases curve with
  | conditional base grace =>
    refine ⟨(effectiveElapsed · grace last), fun _ _ => effectiveElapsed_mono grace last,
      effectiveElapsed_le grace last, fun t => ?_⟩
    by_cases hidle : initial = 0 ∨ t = 0
    · have hle := effectiveElapsed_le grace last t
      have hidle' : initial = 0 ∨ effectiveElapsed t grace last = 0 := by omega
      rw [computeEnergy_of_idle hidle, computeEnergy_of_idle hidle']
    · rw [computeEnergy, if_neg hidle, computeEnergy]
      split_ifs with hidle'
      · exact computeEnergy_of_idle hidle' base none
      · rfl
  | _ => exact ⟨id, monotone_id, fun _ => le_rfl, fun _ => by simp [computeEnergy]⟩

/-! ### Programs that lead downwards -/

namespace DecayMachine

/-- What is known of a word as time goes on. A constant both falls and rises. -/
structure Trend where
  falls : Bool
  rises : Bool

namespace Trend

def Holds (d : Trend) (w : ℕ → ℕ) : Prop :=
  ∀ s t, s ≤ t → (d.falls → w t ≤ w s) ∧ (d.rises → w s ≤ w t)

/-- A quotient is known for a constant divisor only: where the divisor is zero, it is too. -/
def combine (a b : Trend) : UInt8 → Trend
  | 0x03 | 0x06 => ⟨a.falls && b.rises, a.rises && b.falls⟩
  | 0x05 => ⟨a.falls && b.falls && b.rises, a.rises && b.falls && b.rises⟩
  | _ => ⟨a.falls && b.falls, a.rises && b.rises⟩

def step (bytecode : Bytes) (pc : ℕ) (stack : List Trend) : Option (ℕ × List Trend) :=
  match bytecode[pc]?, stack with
  | some 0x01, stack =>
    if bytecode.length ≤ pc + 8 then none else some (pc + 9, ⟨true, true⟩ :: stack)
  | some 0x07, a :: stack => some (pc + 1, a :: a :: stack)
  | some 0x08, b :: a :: rest => some (pc + 1, a :: b :: rest)
  | some op, b :: a :: rest => (binary op).map fun _ => (pc + 1, a.combine b op :: rest)
  | _, _ => none

/-- Run a program on what is known of the stack. -/
def evaluate (bytecode : Bytes) : ℕ → ℕ → List Trend → Option (List Trend)
  | 0, pc, stack => if bytecode.length ≤ pc then some stack else none
  | steps + 1, pc, stack =>
    if bytecode.length ≤ pc then some stack
    else if maxStack < stack.length then none
    else (step bytecode pc stack).bind fun next => evaluate bytecode steps next.1 next.2

variable {a b : Trend} {x y : ℕ → ℕ} {f : ℕ → ℕ → ℕ}

lemma holds_const (n : ℕ) : a.Holds fun _ => n := fun _ _ _ => ⟨fun _ => le_rfl, fun _ => le_rfl⟩

lemma shiftRight_le {m m' n n' : ℕ} (hm : m ≤ m') (hn : n' ≤ n) : m >>> n ≤ m' >>> n' := by
  rw [Nat.shiftRight_eq_div_pow, Nat.shiftRight_eq_div_pow]
  exact Nat.div_le_div hm (Nat.pow_le_pow_right (by decide) hn) (by positivity)

lemma Holds.combine {op : UInt8} (hf : binary op = some f) (ha : a.Holds x) (hb : b.Holds y) :
    (a.combine b op).Holds fun t => f (x t) (y t) := by
  intro s t hst
  have hx := ha s t hst
  have hy := hb s t hst
  unfold binary at hf
  split at hf <;> cases hf <;> simp only [Trend.combine, satAdd, satMul, Bool.and_eq_true]
  case h_3 => -- products
    have hfalls := @Nat.mul_le_mul (x t) (y t) (x s) (y s)
    have hrises := @Nat.mul_le_mul (x s) (y s) (x t) (y t)
    grind
  all_goals grind [Nat.div_le_div_right, shiftRight_le]

variable {bytecode : Bytes} {pc : ℕ} {ds : List Trend} {ws : List (ℕ → ℕ)}
  (hstack : List.Forall₂ Holds ds ws)

include hstack

lemma holds_step {next : ℕ × List Trend} (h : step bytecode pc ds = some next) :
    ∃ ws', List.Forall₂ Holds next.2 ws' ∧ ∀ t,
      DecayMachine.step bytecode pc (ws.map (· t)) = some (next.1, ws'.map (· t)) := by
  unfold step at h
  split at h
  · rename_i hop
    split_ifs at h with hlength
    cases h
    refine ⟨_ :: ws, .cons (holds_const (leValue ((bytecode.drop (pc + 1)).take 8))) hstack, ?_⟩
    simp [DecayMachine.step, hop, hlength]
  · rename_i hop
    cases h
    obtain - | ⟨ha, hrest⟩ := hstack
    exact ⟨_ :: _ :: _, .cons ha (.cons ha hrest), by simp [DecayMachine.step, hop]⟩
  · rename_i hop
    cases h
    obtain - | ⟨hb, - | ⟨ha, hrest⟩⟩ := hstack
    exact ⟨_ :: _ :: _, .cons ha (.cons hb hrest), by simp [DecayMachine.step, hop]⟩
  · rename_i hop
    obtain ⟨f, hf, rfl⟩ := Option.map_eq_some_iff.mp h
    obtain - | ⟨hb, - | ⟨ha, hrest⟩⟩ := hstack
    exact ⟨_ :: _, .cons (.combine hf ha hb) hrest, by simp [DecayMachine.step, hop, hf]⟩
  · cases h

/-- What is known at the end of a program is true of its result. -/
lemma holds_evaluate {left : ℕ} {d : Trend} (h : evaluate bytecode left pc ds = some [d]) :
    ∃ w, d.Holds w ∧ ∀ t, DecayMachine.evaluate bytecode left pc (ws.map (· t)) = some (w t) := by
  induction left generalizing pc ds ws with
  | zero =>
    obtain ⟨hpc, rfl⟩ : bytecode.length ≤ pc ∧ ds = [d] := by simpa [evaluate] using h
    obtain - | ⟨hw, - | -⟩ := hstack
    exact ⟨_, hw, by simp [DecayMachine.evaluate, hpc]⟩
  | succ left ih =>
    rw [evaluate] at h
    split_ifs at h with hpc hlimit
    · obtain rfl := Option.some.inj h
      obtain - | ⟨hw, - | -⟩ := hstack
      exact ⟨_, hw, by simp [DecayMachine.evaluate, hpc]⟩
    · obtain ⟨next, hnext, hrest⟩ := Option.bind_eq_some_iff.mp h
      obtain ⟨ws', hstack', hstep⟩ := holds_step hstack hnext
      obtain ⟨w, hw, hresult⟩ := ih hstack' hrest
      rw [hstack.length_eq] at hlimit
      exact ⟨w, hw, by simpa [DecayMachine.evaluate, hpc, hlimit, hstep] using hresult⟩

end Trend

end DecayMachine

open DecayMachine in
/-- A program leads downwards if it is known to fall, for a time that rises and a constant energy,
and begins with no more than that energy. -/
lemma DecayCurve.Wanes.of_trend {bytecode : Bytes} {initial : ℕ} {d : Trend}
    (h : Trend.evaluate bytecode maxSteps 0 [⟨false, true⟩, ⟨true, true⟩] = some [d])
    (hfalls : d.falls) (hfirst : (evaluateCustom bytecode initial 1).getD 0 ≤ initial) :
    (DecayCurve.custom bytecode).Wanes initial := by
  have hstack : List.Forall₂ Trend.Holds [⟨false, true⟩, ⟨true, true⟩] [id, fun _ => initial] :=
    .cons (fun _ _ hst => ⟨nofun, fun _ => hst⟩) (.cons (Trend.holds_const _) .nil)
  obtain ⟨w, hw, hresult⟩ := Trend.holds_evaluate hstack h
  have heq (t : ℕ) : evaluateCustom bytecode initial t = some (w t) := hresult t
  intro s t hs hst _
  simp only [heq, Option.getD_some] at hfirst ⊢
  exact ⟨(hw s t hst).1 hfalls, ((hw 1 s hs).1 hfalls).trans hfirst⟩

/-! ### All curves -/

/-- Energy never grows on a curve, from an initial energy, exactly if there is none or the steps
and programs of the curve only lead downwards. -/
theorem energy_falls_iff (curve : DecayCurve) (initial : ℕ) (hinitial : initial < 2 ^ 64) :
    (∀ last, Falls 0 initial fun t => computeEnergy curve initial t last) ↔
      initial = 0 ∨ curve.Wanes initial := by
  rcases eq_zero_or_pos initial with rfl | hpos
  · refine iff_of_true (fun last s t _ _ _ => ?_) (.inl rfl)
    simp [computeEnergy_of_idle (Or.inl rfl)]
  rw [← falls_iff_wanes hinitial hpos, or_iff_right hpos.ne']
  refine ⟨fun h => h none, fun h last s t _ hst ht => ?_⟩
  obtain ⟨counted, hmono, hle, heq⟩ := exists_counted curve initial last
  simp only [heq]
  exact h _ _ (Nat.zero_le _) (hmono hst) ((hle t).trans_lt ht)

/-- The program halves the energy every sixteenth epoch. -/
theorem energy_falls_steps :
    computeEnergy (.conditional (.stepped [(10, 50), (20, 5)]) 3) 100 25 (some 4) ≤
        computeEnergy (.conditional (.stepped [(10, 50), (20, 5)]) 3) 100 12 (some 4) ∧
      ∀ t < 2 ^ 64,
        computeEnergy (.custom [0x01, 16, 0, 0, 0, 0, 0, 0, 0, 0x05, 0x06]) 100 t none ≤ 100 := by
  have hwanes : (DecayCurve.custom [0x01, 16, 0, 0, 0, 0, 0, 0, 0, 0x05, 0x06]).Wanes 100 :=
    .of_trend rfl rfl (by decide)
  refine ⟨?_, fun t ht => ?_⟩
  · exact ((energy_falls_iff (.conditional (.stepped [(10, 50), (20, 5)]) 3) 100 (by decide)).mpr
      (.inr (by simp [DecayCurve.Wanes, StepsDown, steppedEnergy])) (some 4) 12 25 (by decide)
      (by decide) (by decide)).1
  · exact ((energy_falls_iff _ 100 (by decide)).mpr (.inr hwanes) none t t (by omega) le_rfl ht).2

/-- A step and a program that lead upwards. -/
theorem energy_grows :
    computeEnergy (.stepped [(10, 500)]) 100 9 none = 100 ∧
      computeEnergy (.stepped [(10, 500)]) 100 10 none = 500 ∧
      computeEnergy (.custom [0x02]) 100 1 none = 101 ∧
      computeEnergy (.custom [0x02]) 100 50 none = 150 := by
  decide

end EvaporChain
