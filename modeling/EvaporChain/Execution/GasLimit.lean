import EvaporChain.Execution.Outcomes

/-!
# Gas of a block

The gas of a block is that of its successful transactions. Three executors keep it below the limit
in three ways: with a running total, with budgets for the partitions and a serial tail, and with a
cut-off after optimistic execution.
-/

namespace EvaporChain

open Core List

/-! ### Gas -/

/-- What a transaction adds to the gas of its block: nothing if it failed. -/
def TxOutcome.gas (outcome : TxOutcome) : ℕ := if outcome.success then outcome.gasUsed else 0

def successGas (outcomes : List TxOutcome) : ℕ := (outcomes.map TxOutcome.gas).sum

@[simp] lemma successGas_nil : successGas [] = 0 := rfl

@[simp] lemma successGas_append (os os' : List TxOutcome) :
    successGas (os ++ os') = successGas os + successGas os' := by
  simp [successGas]

@[simp] lemma successGas_success (txHash : Hash) (error : Option String) (gas : ℕ) :
    successGas [⟨txHash, true, error, gas⟩] = gas := rfl

@[simp] lemma successGas_failure (txHash : Hash) (error : Option String) (gas : ℕ) :
    successGas [⟨txHash, false, error, gas⟩] = 0 := rfl

namespace Simple

/-! ### The serial executor -/

variable {C S : Type} {env : ChainEnv C S} {cfg : ExecConfig} {epoch : ℕ}

lemma blockGasLimit_dispatch (tx : Transaction) (st : ChainState C S) :
    (dispatch env cfg epoch tx st).2.blockGasLimit = st.blockGasLimit := by
  by_cases hdeferred : ∃ d, tx.body = .deferred d
  · obtain ⟨d, hd⟩ := hdeferred
    have hdispatch : dispatch env cfg epoch tx st = executeDeferred d st := by rw [dispatch, hd]
    rw [hdispatch, Parallel.blockGasLimit_executeDeferred]
  · push Not at hdeferred
    obtain ⟨_, _, _, heq⟩ := engineStep_dispatch hdeferred st
    rw [heq]

lemma blockGasLimit_runTx {gasUsed : ℕ} {tx : Transaction} {st st' : ChainState C S}
    {result : TxResult} (h : runTx env cfg epoch gasUsed tx st = (result, st')) :
    st'.blockGasLimit = st.blockGasLimit := by
  cases txRun_of_runTx h with
  | refused | unpaid => rfl
  | failed fee result | done fee result =>
    exact (congrArg (·.2.blockGasLimit) result).symm.trans (blockGasLimit_dispatch tx _)

/-- A transaction is executed only if there is gas for it. -/
lemma runTx_done {gasUsed : ℕ} {tx : Transaction} {st st' : ChainState C S}
    (h : runTx env cfg epoch gasUsed tx st = (.done, st')) (hlimit : 0 < st.blockGasLimit) :
    gasUsed + estimateGas tx ≤ u64Max ∧ gasUsed + estimateGas tx ≤ st.blockGasLimit := by
  unfold runTx at h
  split at h
  · cases h
  · dsimp only at h
    split_ifs at h with hover
    · cases h
    · omega

/-- The books of a block. -/
structure Progress.WithinLimit (limit : ℕ) (r : Progress C S) : Prop where
  balanced : r.gasUsed = successGas r.txOutcomes
  le_limit : r.gasUsed ≤ limit
  limit_eq : r.st.blockGasLimit = limit

lemma Progress.WithinLimit.step {limit : ℕ} (hlimit : 0 < limit) {r : Progress C S}
    (h : r.WithinLimit limit) (tx : Transaction) : (r.step env cfg epoch tx).WithinLimit limit := by
  obtain ⟨hbalanced, hle, rfl⟩ := h
  simp only [Progress.step]
  rcases hrun : runTx env cfg epoch r.gasUsed tx r.st with ⟨result, st'⟩
  have hkeep := blockGasLimit_runTx hrun
  cases result with
  | refused | failed => exact ⟨by simpa, hle, hkeep⟩
  | done =>
    obtain ⟨hmax, hle'⟩ := runTx_done hrun hlimit
    have hsum : (r.gasUsed + estimateGas tx) % 2 ^ 64 = r.gasUsed + estimateGas tx :=
      Nat.mod_eq_of_lt (Nat.lt_of_le_pred (Nat.two_pow_pos 64) hmax)
    rw [hsum]
    refine ⟨?_, hle', hkeep⟩
    rw [successGas_append, successGas_success, hbalanced]

end Simple

namespace Parallel

/-! ### The parallel executor -/

section

variable {env : ExecEnv} {cfg : ExecConfig} {epoch : ℕ}

/-- The books of a partition: gas that was used and gas that is left. -/
structure PartitionResult.Balanced (budget : ℕ) (r : PartitionResult) : Prop where
  used : r.gasUsed = successGas (r.txOutcomes.map Prod.snd) % 2 ^ 64
  left : successGas (r.txOutcomes.map Prod.snd) + r.gasBudget = budget

lemma PartitionResult.Balanced.step {budget : ℕ} {r : PartitionResult} {x : ℕ × Transaction}
    (h : r.Balanced budget) (hserial : isSerial x.2 = false) :
    (r.step env cfg epoch x).Balanced budget := by
  obtain ⟨hused, hleft⟩ := h
  generalize hstep : r.step env cfg epoch x = r'
  have hrun := stepRun_step env cfg epoch r hserial
  rw [hstep] at hrun
  cases hrun with
  | done reached =>
    have hfits := reached.2
    constructor
    · simp [hused]
    · simp only [map_append, map_cons, map_nil, successGas_append,
        successGas_success]
      omega
  | refused | unpaid | failed =>
    constructor <;> simpa [PartitionResult.skip]

end

variable {C S : Type} {env : ChainEnv C S} {cfg : ExecConfig} {epoch : ℕ}

/-- Gas of a block so far, in wrapping arithmetic. -/
def Progress.Balanced (r : Progress C S) : Prop :=
  r.gasUsed = successGas (r.indexedOutcomes.map Prod.snd) % 2 ^ 64

lemma Progress.Balanced.merge {r : Progress C S} {p : PartitionResult} {budget : ℕ}
    (h : r.Balanced) (hp : p.Balanced budget) : (r.merge p).Balanced := by
  unfold Progress.Balanced Progress.merge at *
  simp [h, hp.used]

variable (block : ExecBlock)

/-- The books of a block: gas that was used, and the limit it keeps to. -/
structure Progress.WithinLimit (limit : ℕ) (r : Progress C S) : Prop where
  balanced : r.Balanced
  limit_eq : r.st.blockGasLimit = limit
  le_limit : 0 < limit → r.gasUsed ≤ limit

lemma Progress.WithinLimit.step {limit : ℕ} {r r' : Progress C S} {x : ℕ × Transaction}
    (h : r.WithinLimit limit) (hstep : r.step env serialPhase cfg epoch x = .ok r') :
    r'.WithinLimit limit := by
  obtain ⟨hbalanced, hlimit, hle⟩ := h
  unfold Progress.Balanced at hbalanced
  have hrun := serialRun_step env cfg epoch serialPhase r x
  rw [hstep] at hrun
  cases hrun with
  | refused | unpaid => exact ⟨by simpa [Progress.Balanced, Progress.skip], hlimit, hle⟩
  | failed reached fee result =>
    exact ⟨by simpa [Progress.Balanced], (blockGasLimit_executeSerial result).trans hlimit, hle⟩
  | done reached fee result =>
    refine ⟨by simp [Progress.Balanced, serialPhase, hbalanced],
      (blockGasLimit_executeSerial result).trans hlimit, ?_⟩
    intro hpos
    have hfits := reached.2.1
    simp only [serialPhase, hlimit, decide_eq_false_iff_not] at hfits ⊢
    omega

end Parallel

namespace BlockStm

open Parallel (Progress serialRun_step)

/-! ### Block-STM -/

section

variable {blockGasLimit : ℕ} {txHash : ℕ → Hash}

structure Collected.WithinLimit (limit : ℕ) (c : Collected) : Prop where
  balanced : c.totalGas = successGas c.txOutcomes
  le_max : c.totalGas ≤ u64Max
  le_limit : 0 < limit → c.totalGas ≤ limit

lemma Collected.WithinLimit.step {c : Collected} (h : c.WithinLimit blockGasLimit) (i : ℕ) :
    (c.step blockGasLimit txHash i).WithinLimit blockGasLimit := by
  obtain ⟨hbalanced, hmax, hlimit⟩ := h
  have hkeep (outcomes : List TxOutcome) (houtcomes : successGas outcomes = 0) :
      c.totalGas = successGas (c.txOutcomes ++ outcomes) := by
    rw [successGas_append, houtcomes, add_zero, hbalanced]
  unfold Collected.step
  split
  · exact ⟨hkeep _ rfl, hmax, hlimit⟩
  · split
    · rename_i gasUsed fee _
      split_ifs with hover
      · exact ⟨hkeep _ rfl, hmax, hlimit⟩
      · simp only [overLimit, not_or, not_and, not_lt] at hover
        have hsum : satAdd c.totalGas gasUsed = c.totalGas + gasUsed := min_eq_left hover.1
        refine ⟨?_, ?_, ?_⟩
        · rw [hsum, successGas_append, successGas_success, hbalanced]
        · exact hsum ▸ hover.1
        · exact fun hpos => hsum ▸ hover.2 hpos
    · exact ⟨hkeep _ rfl, hmax, hlimit⟩
    · exact ⟨hkeep _ rfl, hmax, hlimit⟩

end

section

variable {env : ExecEnv} {cfg : ExecConfig} {db : StateDb} {epoch : ℕ}

end

variable {C S : Type} {env : ChainEnv C S} {cfg : ExecConfig} {epoch : ℕ}

end BlockStm

/-! ### The limit -/

/-- An account with some money. -/
def fundedState (blockGasLimit : ℕ) : ChainState Unit Unit :=
  { freshState (Ledger.empty.fund (addressOf 1) 100) with blockGasLimit := blockGasLimit }

end EvaporChain
