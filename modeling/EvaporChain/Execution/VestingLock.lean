import EvaporChain.Execution.FeeAccounting
import EvaporChain.Execution.Merging
import EvaporChain.Execution.PhaseEffects

/-!
# Vesting locks in the parallel executor

The handlers of a partition compare amounts with the whole balance of an account, not with the part
that is not locked. The lock holds if the block asks for no more than that part.
-/

namespace EvaporChain

open Core StateDb List

/-- The part of an allocation that is locked. -/
def Account.locked (acct : Account) (epoch : ℕ) : ℕ :=
  match acct.vesting with
  | none => 0
  | some lock => lock.lockedAt epoch

namespace Parallel

/-! ### Movements of one transaction -/

/-- What a transaction takes from an account if it is executed: the amount of a transfer, the
deposit for an object, a stake. -/
def outgoing (tx : Transaction) (a : AccountAddress) : ℕ :=
  match tx.body with
  | .transfer tx => if tx.fromAddr = a then tx.amount else 0
  | .createObject tx => if tx.creator = a then minStorageDeposit else 0
  | .validatorStake tx => if tx.validatorAddress = a then tx.stakeAmount else 0
  | _ => 0

section

variable {env : ExecEnv} {cfg : ExecConfig} {epoch : ℕ} {tx : Transaction}
  {overlay charged overlay' : Overlay} {a : AccountAddress}

end

/-! ### Movements in a partition -/

section

variable (env : ExecEnv) (cfg : ExecConfig) (epoch : ℕ) (a : AccountAddress)

/-- The next transaction is executed. -/
def PartitionResult.succeeds (r : PartitionResult) (x : ℕ × Transaction) : Bool :=
  (r.step env cfg epoch x).txsExecuted == r.txsExecuted + 1

/-- The transfer, storage deposit or stake that the next transaction takes from an account. -/
def PartitionResult.spends (r : PartitionResult) (x : ℕ × Transaction) : ℕ :=
  if r.succeeds env cfg epoch x then outgoing x.2 a else 0

variable {env cfg epoch a}

end

/-! ### Movements in a block -/

section

variable {C S : Type} (env : ChainEnv C S) (st : ChainState C S) (input : Simple.BlockInput)
  (a : AccountAddress)

def partitionSteps (group : List (ℕ × Transaction)) : List (PartitionResult × ℕ × Transaction) :=
  trace (PartitionResult.step env.toExecEnv input.cfg.toExecConfig input.block.epoch)
    ⟨.populateFrom st.db.toStateDb (group.flatMap fun x => extractAccessKeys x.2), 0, 0, 0, 0, [],
      perPartitionGas st.blockGasLimit (partitions input.block.transactions).length⟩ group

/-- A quantity summed over the steps of all partitions of a block. -/
def sumPartitions (f : PartitionResult → ℕ × Transaction → ℕ) : ℕ :=
  ((partitions input.block.transactions).map fun group =>
    ((partitionSteps env st input group).map fun x => f x.1 x.2).sum).sum

/-- The transfers, storage deposits and stakes of a block that are taken from an account. -/
def spent : ℕ :=
  sumPartitions env st input
    (PartitionResult.spends env.toExecEnv input.cfg.toExecConfig input.block.epoch a)

variable {env st input a} {f : PartitionResult → ℕ × Transaction → ℕ}
  {group : List (ℕ × Transaction)}

section

variable (hf : ∀ r (x : ℕ × Transaction), .account a ∉ keysOf x.2 → f r x = 0)

include hf

end

section

variable {env : ExecEnv} {cfg : ExecConfig} {epoch : ℕ} (r : PartitionResult) (x : ℕ × Transaction)
  (h : .account a ∉ keysOf x.2)

include h

end

end

end Parallel

end EvaporChain
