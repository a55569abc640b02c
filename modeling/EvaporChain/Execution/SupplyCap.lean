import EvaporChain.Execution.Coins
import EvaporChain.Execution.SimpleExecutor

/-!
# The cap on the supply

Money is minted as block rewards and as bonuses for fresh transactions. Rewards stop at the cap on
what was minted; bonuses do not look at it.
-/

namespace EvaporChain

open Core List

/-! ### Emission schedules -/

/-- Shape of the reward over time. -/
inductive EmissionSchedule
  | constant
  | halving (epochsPerHalving : ℕ)
  | linearDecay (decayEpochs : ℕ)
deriving DecidableEq

structure EmissionParams where
  initialReward : ℕ
  schedule : EmissionSchedule
  maxSupply : Option ℕ
deriving DecidableEq

namespace EmissionParams

def rawReward (params : EmissionParams) (epoch : ℕ) : ℕ :=
  match params.schedule with
  | .constant => params.initialReward
  -- a period of zero epochs makes the code panic
  | .halving epochsPerHalving =>
    let halvings := epoch / epochsPerHalving
    if 64 ≤ halvings then 0 else params.initialReward / 2 ^ halvings
  | .linearDecay decayEpochs =>
    if decayEpochs ≤ epoch then 0
    else
      let remaining := decayEpochs - epoch
      min (params.initialReward * remaining) (2 ^ 128 - 1) / decayEpochs % 2 ^ 64

/-- The reward of a block, of which `cumulativeEmitted` was minted before. -/
def blockRewardAt (params : EmissionParams) (epoch cumulativeEmitted : ℕ) : ℕ :=
  match params.maxSupply with
  | none => params.rawReward epoch
  | some cap =>
    if cap ≤ cumulativeEmitted then 0
    else
      let headroom := cap - cumulativeEmitted
      if headroom < params.rawReward epoch then headroom % 2 ^ 64 else params.rawReward epoch

end EmissionParams

/-- How much may be minted. -/
inductive Tokenomics.CappedAt (t : Tokenomics) (cap : ℕ) : Prop
  | legacy (emission : t.emission = none) (maxSupplyCap : t.maxSupplyCap = some cap)
  | schedule (params : EmissionParams) (emission : t.emission = some params.blockRewardAt)
      (maxSupply : params.maxSupply = some cap)

namespace Tokenomics

variable {t : Tokenomics} {cap : ℕ}

lemma CappedAt.capped (h : t.CappedAt cap) (epoch totalMinted totalStaked : ℕ) :
    (t.capped epoch totalMinted totalStaked).CappedAt cap := by
  simp only [Tokenomics.capped]
  split_ifs
  · cases h with
    | legacy emission maxSupplyCap => exact .legacy emission maxSupplyCap
    | schedule params emission maxSupply => exact .schedule params emission maxSupply
  · exact h

/-- A reward never goes over the cap. -/
lemma CappedAt.add_blockReward_le (h : t.CappedAt cap) {totalMinted : ℕ}
    (hminted : totalMinted ≤ cap) (epoch : ℕ) :
    totalMinted + t.blockReward epoch totalMinted ≤ cap := by
  unfold blockReward
  cases h with
  | legacy emission maxSupplyCap =>
    rw [emission]
    simp only [rewardAtEpochCapped, maxSupplyCap]
    omega
  | schedule params emission maxSupply =>
    rw [emission]
    simp only [EmissionParams.blockRewardAt, maxSupply]
    split_ifs <;> omega

end Tokenomics

/-! ### Bonuses -/

variable {C S : Type}

/-- Mint for transactions that were included fresh; a scale of zero turns the bonus off. -/
def RewardAccumulator.applyPriorityBonusAt (ra : RewardAccumulator) (p : Producer)
    (prioritySum scalePerUnit : ℕ) (st : ChainState C S) : RewardAccumulator × ChainState C S :=
  if scalePerUnit = 0 ∨ prioritySum = 0 then (ra, st)
  else
    let bonus := prioritySum / scalePerUnit
    if bonus = 0 then (ra, st)
    else ({ ra with totalMinted := satAdd ra.totalMinted bonus }, st.creditProducer p bonus)

/-! ### What is credited -/

namespace ChainState

variable (st : ChainState C S)

noncomputable def coins (st : ChainState C S) : ℕ := Simple.totalBalance st.db.toStateDb

lemma coins_credit_le (addr : AccountAddress) (amount epoch : ℕ) :
    (st.credit addr amount epoch).coins ≤ st.coins + amount := by
  unfold credit
  split_ifs
  · omega
  · have htotal := Simple.totalBalance_updateAccount st.db.toStateDb addr (·.credit amount epoch)
    have hsat := satAdd_le_add (st.db.account addr).balance amount
    simp only [Account.credit] at htotal
    simp only [coins, Ledger.toStateDb_updateAccount, Account.credit]
    omega

lemma coins_creditProducer_le (p : Producer) (amount : ℕ) :
    (st.creditProducer p amount).coins ≤ st.coins + amount := by
  unfold creditProducer
  split_ifs
  · exact st.coins_credit_le _ _ _
  · exact Nat.le_add_right st.coins _

lemma coins_creditAll_le (epoch : ℕ) (shares : List (AccountAddress × ℕ)) :
    (st.creditAll epoch shares).coins ≤ st.coins + (shares.map Prod.snd).sum := by
  unfold creditAll
  induction shares generalizing st with
  | nil => simp
  | cons share shares ih =>
    have hfirst := st.coins_credit_le share.1 share.2 epoch
    have hrest := ih (st.credit share.1 share.2 epoch)
    rw [foldl_cons, map_cons, sum_cons]
    omega

end ChainState

/-- The attesters get no more than their part of the reward. -/
lemma sum_attesterShares_le (total : ℕ) (attesters : List AccountAddress) :
    ((attesterShares total attesters).map Prod.snd).sum ≤ total := by
  cases attesters with
  | nil => exact Nat.zero_le _
  | cons first rest =>
    have hdiv : total / (rest.length + 1) * (rest.length + 1) ≤ total := Nat.div_mul_le_self _ _
    have hrest : (rest.map fun _ => total / (rest.length + 1)).sum =
        rest.length * (total / (rest.length + 1)) := by
      rw [List.map_const', sum_replicate, smul_eq_mul]
    simp only [attesterShares, map_cons, map_map, sum_cons]
    have hmap : (Prod.snd ∘ fun att : AccountAddress => (att, total / (rest.length + 1))) =
        fun _ => total / (rest.length + 1) := rfl
    rw [hmap]
    rw [Nat.mul_succ, mul_comm] at hdiv
    rw [Nat.mul_succ, mul_comm (total / (rest.length + 1))]
    omega

lemma proposerShare_le (blockReward : ℕ) (attesters : List AccountAddress) :
    proposerShare blockReward attesters ≤ blockReward := by
  unfold proposerShare
  split_ifs
  · exact le_rfl
  · have hmod := Nat.mod_le (blockReward * 60) (2 ^ 64)
    omega

lemma RewardAccumulator.coins_mint_le (ra : RewardAccumulator) (p : Producer) (blockReward : ℕ)
    (attesters : List AccountAddress) (st : ChainState C S) :
    (ra.mint p blockReward attesters st).2.coins ≤ st.coins + blockReward := by
  have hproposer := st.coins_creditProducer_le p (proposerShare blockReward attesters)
  have hattesters := (st.creditProducer p (proposerShare blockReward attesters)).coins_creditAll_le
    p.epoch (attesterShares (blockReward - proposerShare blockReward attesters) attesters)
  have hsum := sum_attesterShares_le (blockReward - proposerShare blockReward attesters) attesters
  have hshare := proposerShare_le blockReward attesters
  simp only [mint]
  omega

/-! ### Runs -/

inductive RewardCall
  /-- `process_block_rewards_v2` -/
  | rewards (p : Producer) (totalFees : ℕ) (attesters : List AccountAddress) (totalStaked : ℕ)
  /-- `apply_priority_bonus` -/
  | bonus (p : Producer) (prioritySum scalePerUnit : ℕ)

namespace RewardCall

/-- What a call means to mint. -/
def amount (ra : RewardAccumulator) : RewardCall → ℕ
  | .rewards p _ _ totalStaked =>
    (ra.tokenomics.capped p.epoch ra.totalMinted totalStaked).blockReward p.epoch ra.totalMinted
  | .bonus _ prioritySum scalePerUnit => prioritySum / scalePerUnit

variable (s : RewardAccumulator × ChainState C S)

/-- After what a call mints, before it splits fees. -/
def minted (call : RewardCall) : RewardAccumulator × ChainState C S :=
  match call with
  | .rewards p _ attesters _ => s.1.mint p (call.amount s.1) attesters s.2
  | .bonus p prioritySum scalePerUnit => s.1.applyPriorityBonusAt p prioritySum scalePerUnit s.2

def next :
    RewardCall → RewardAccumulator × ChainState C S
  | .rewards p totalFees attesters totalStaked =>
    s.1.processBlockRewardsV2 p totalFees attesters totalStaked s.2
  | .bonus p prioritySum scalePerUnit =>
    s.1.applyPriorityBonusAt p prioritySum scalePerUnit s.2

/-- What a call credits to accounts as newly minted money. -/
noncomputable def credited (call : RewardCall) : ℕ :=
  (call.minted s).2.coins - s.2.coins

/-- A bonus stays under the cap, and the total in its range. -/
def Fits (cap : ℕ) (ra : RewardAccumulator) (call : RewardCall) : Prop :=
  ra.totalMinted + call.amount ra ≤ u64Max ∧
    match call with
    | .rewards .. => True
    | .bonus _ prioritySum scalePerUnit => ra.totalMinted + prioritySum / scalePerUnit ≤ cap

instance decidableFits (cap : ℕ) (ra : RewardAccumulator) (call : RewardCall) :
    Decidable (call.Fits cap ra) :=
  match call with
  | .rewards .. => inferInstanceAs (Decidable (_ ∧ True))
  | .bonus _ _ _ => inferInstanceAs (Decidable (_ ∧ _))

variable {cap : ℕ} {s : RewardAccumulator × ChainState C S} {call : RewardCall}

/-- Fees are not minted. -/
lemma totalMinted_next (s : RewardAccumulator × ChainState C S) (call : RewardCall) :
    (call.next s).1.totalMinted = (call.minted s).1.totalMinted ∧
      (call.next s).1.tokenomics = s.1.tokenomics := by
  cases call with
  | rewards p totalFees attesters totalStaked =>
    simp only [next, RewardAccumulator.processBlockRewardsV2]
    split_ifs <;> exact ⟨rfl, rfl⟩
  | bonus p prioritySum scalePerUnit =>
    refine ⟨rfl, ?_⟩
    simp only [next, RewardAccumulator.applyPriorityBonusAt]
    split_ifs <;> rfl

/-- What a call mints, it counts and credits at most. -/
lemma minted_spec (h : s.1.totalMinted + call.amount s.1 ≤ u64Max) :
    (call.minted s).1.totalMinted = s.1.totalMinted + call.amount s.1 ∧
      (call.minted s).2.coins ≤ s.2.coins + call.amount s.1 := by
  cases call with
  | rewards p totalFees attesters totalStaked =>
    exact ⟨min_eq_left h, s.1.coins_mint_le p _ attesters s.2⟩
  | bonus p prioritySum scalePerUnit =>
    simp only [minted, amount, RewardAccumulator.applyPriorityBonusAt] at h ⊢
    split_ifs with hoff hsmall
    · have hzero : prioritySum / scalePerUnit = 0 := by
        rcases hoff with rfl | rfl
        · exact Nat.div_zero _
        · exact Nat.zero_div _
      rw [hzero, add_zero, add_zero]
      exact ⟨rfl, le_rfl⟩
    · rw [hsmall, add_zero, add_zero]
      exact ⟨rfl, le_rfl⟩
    · exact ⟨min_eq_left h, s.2.coins_creditProducer_le p _⟩

lemma credited_le (h : s.1.totalMinted + call.amount s.1 ≤ u64Max) :
    call.credited s ≤ call.amount s.1 :=
  Nat.sub_le_iff_le_add'.mpr (minted_spec h).2

lemma add_amount_le (hcapped : s.1.tokenomics.CappedAt cap) (hminted : s.1.totalMinted ≤ cap)
    (h : call.Fits cap s.1) : s.1.totalMinted + call.amount s.1 ≤ cap := by
  cases call with
  | rewards p totalFees attesters totalStaked =>
    exact (hcapped.capped ..).add_blockReward_le hminted p.epoch
  | bonus p prioritySum scalePerUnit => exact h.2

end RewardCall

/-- If every bonus stays under the cap, so does the total, and what is credited was counted. -/
theorem minted_within_cap {ra : RewardAccumulator} {st : ChainState C S} {cap : ℕ}
    (hcapped : ra.tokenomics.CappedAt cap) (hminted : ra.totalMinted ≤ cap)
    (calls : List RewardCall)
    (hfits : ∀ x ∈ trace RewardCall.next (ra, st) calls, x.2.Fits cap x.1.1) :
    (run RewardCall.next (ra, st) calls).1.totalMinted ≤ cap ∧
      ra.totalMinted + ((trace RewardCall.next (ra, st) calls).map fun x =>
        x.2.credited x.1).sum ≤ (run RewardCall.next (ra, st) calls).1.totalMinted := by
  have hkeeps := run_induction RewardCall.next (s := (ra, st))
    (P := fun s trace => s.1.tokenomics.CappedAt cap ∧ s.1.totalMinted ≤ cap ∧
      ra.totalMinted + (trace.map fun x => x.2.credited x.1).sum ≤ s.1.totalMinted)
    (G := fun s call => call.Fits cap s.1) ⟨hcapped, hminted, by simp⟩ ?_ calls hfits
  · exact hkeeps.2
  · rintro s trace call ⟨hcapped, hminted, hcredited⟩ hfits
    obtain ⟨hsame, htokenomics⟩ := call.totalMinted_next s
    obtain ⟨hcount, -⟩ := RewardCall.minted_spec hfits.1
    have hcap := RewardCall.add_amount_le hcapped hminted hfits
    have hgain := RewardCall.credited_le hfits.1
    refine ⟨htokenomics ▸ hcapped, ?_, ?_⟩
    · rw [hsame, hcount]
      exact hcap
    · rw [map_append, List.sum_append, map_singleton, sum_singleton, hsame, hcount,
        ← add_assoc]
      exact add_le_add hcredited hgain

/-- Ten units a block up to a cap of a hundred, without fees. -/
def tenABlock : Tokenomics where
  baseReward := 10
  rewardHalfLife := 0
  maxSupplyCap := some 100
  emission := none
  burnShare _ := 0
  stakerShare _ := 0
  commissionShare _ := 0
  apyBudget _ := none

def accumulatorAt (t : Tokenomics) (totalMinted : ℕ) : RewardAccumulator :=
  ⟨t, totalMinted, 0, 0, 0, 0⟩

def firstProducer : Producer := ⟨addressOf 1, 3, true⟩

theorem minted_within_cap_lastReward :
    tenABlock.CappedAt 100 ∧ (run RewardCall.next (accumulatorAt tenABlock 85, freshState .empty)
        [.bonus firstProducer 12 2, .rewards firstProducer 0 [addressOf 2] 7]).1.totalMinted = 100 ∧
      (run RewardCall.next (accumulatorAt tenABlock 85, freshState .empty)
        [.bonus firstProducer 12 2, .rewards firstProducer 0 [addressOf 2] 7]).1.totalMinted ≤
          100 := by
  have hcapped : (accumulatorAt tenABlock 85).tokenomics.CappedAt 100 := .legacy rfl rfl
  refine ⟨hcapped, by decide +kernel, ?_⟩
  exact (minted_within_cap hcapped (by decide) _ (by decide +kernel)).1

/-- A schedule whose cap is out of the range of the total. -/
def wideSchedule : EmissionParams := ⟨5, .constant, some (2 ^ 64 + 10)⟩

/-- A bonus is minted over the cap; and where the cap is out of range, a reward is credited that
the total does not count. -/
theorem bonus_over_cap :
    (tenABlock.CappedAt 100 ∧ (run RewardCall.next (accumulatorAt tenABlock 100, freshState .empty)
        [.bonus firstProducer 50 1]).1.totalMinted = 150 ∧
      ((run RewardCall.next (accumulatorAt tenABlock 100, freshState .empty)
        [.bonus firstProducer 50 1]).2.db.account (addressOf 1)).balance = 50) ∧
    ((run RewardCall.next (accumulatorAt { tenABlock with
          emission := some wideSchedule.blockRewardAt } u64Max, freshState .empty)
        [.rewards firstProducer 0 [] 0]).1.totalMinted = u64Max ∧
      ((run RewardCall.next (accumulatorAt { tenABlock with
          emission := some wideSchedule.blockRewardAt } u64Max, freshState .empty)
        [.rewards firstProducer 0 [] 0]).2.db.account (addressOf 1)).balance = 5) := by
  refine ⟨⟨.legacy rfl rfl, ?_, ?_⟩, ?_, ?_⟩ <;> decide +kernel

end EvaporChain
