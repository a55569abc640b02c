import EvaporChain.Execution.Partition
import EvaporChain.Execution.SimpleExecutor

/-!
# The parallel executor

A block is executed in two phases. Transactions that stay within accounts and objects are split
into partitions, which run on overlays of their own. The others follow one after the other, in
block order. Evaporation, rent and rewards end the block.
-/

namespace EvaporChain

open Core

/-- How the execution of a block ends before its time. -/
inductive BlockFailure
  | error (e : ExecutionError)
  | panic
deriving DecidableEq

namespace Parallel

open Simple (Handled onLedger)

variable {C S : Type} (env : ChainEnv C S)

/-! ### Serial transactions -/

/-- Kinds that are executed after the partitions. -/
def isSerial (tx : Transaction) : Bool :=
  match tx.body with
  | .deployContract _ | .callContract _ | .deployScript _ | .callScript _ | .shield _
  | .unshield _ | .privateTransfer .. | .deferred _ | .validatorExit _ | .validatorClaimStake _
  | .rotateValidatorKey _ | .refund _ | .deployTemplate _ => true
  | _ => false

/-- No deposit is charged, and rules that do not parse count as none. -/
def deployContract (epoch : ℕ) (tx : DeployContractTx) (st : ChainState C S) :
    Handled (ChainState C S) :=
  let template := tx.template
  if template ∉ Simple.contractTemplates then
    (.error (.contractError s!"unknown template: {template}"), st)
  else match env.jsonError tx.initArgs with
    | some e => (.error (.contractError s!"invalid init_args: {e}"), st)
    | none =>
      let rules := tx.rules.filter fun text => (env.rulesError text).isNone
      match env.contracts.deploy st.contractEngine { tx with rules := rules } epoch with
      | .error e => (.error (.contractError e), st)
      | .ok engine => (.ok (), { st with contractEngine := engine })

def callContract (tx : CallContractTx) (st : ChainState C S) : Handled (ChainState C S) :=
  if Simple.maxCallDepth ≤ st.callDepth then
    (.error (.callDepthExceeded Simple.maxCallDepth), st)
  else
    let st := { st with callDepth := Simple.leaveCall st.callDepth }
    match env.jsonError tx.args with
    | some e => (.error (.contractError s!"invalid args: {e}"), st)
    | none =>
      let (result, engine) := env.contracts.call st.contractEngine tx.contractId tx.method
        tx.args tx.caller tx.epoch
      (result.mapError .contractError, { st with contractEngine := engine })

/-- No deposit is charged, and the totality gate is not asked. -/
def deployScript (epoch : ℕ) (tx : DeployScriptTx) (st : ChainState C S) :
    Handled (ChainState C S) :=
  match env.scripts.deploy st.scriptEngine tx epoch with
  | .error e => (.error (.scriptError e), st)
  | .ok engine => (.ok (), { st with scriptEngine := engine })

/-- What a script may use unless its caller says otherwise. -/
def defaultGasLimit : ℕ := 10000000

/-- Arguments that do not parse count as none. -/
def callScript (tx : CallScriptTx) (st : ChainState C S) : Handled (ChainState C S) :=
  if Simple.maxCallDepth ≤ st.callDepth then
    (.error (.callDepthExceeded Simple.maxCallDepth), st)
  else
    let st := { st with callDepth := Simple.leaveCall st.callDepth }
    let unparsed := tx.args ≠ "" ∧ tx.args ≠ "[]" ∧ (env.scriptArgsError tx.args).isSome
    let tx := if unparsed then { tx with args := "[]" } else tx
    match env.scripts.call st.scriptEngine tx defaultGasLimit with
    | .error e => (.error (.scriptError e), st)
    | .ok engine => (.ok (), { st with scriptEngine := engine })

/-- Execute a transaction of the serial phase; there is no arm for the other kinds. -/
def executeSerial (epoch : ℕ) (tx : Transaction) (st : ChainState C S) :
    Except BlockFailure (Handled (ChainState C S)) :=
  match tx.body with
  | .deployContract tx => .ok (deployContract env epoch tx st)
  | .callContract tx => .ok (callContract env tx st)
  | .deployScript tx => .ok (deployScript env epoch tx st)
  | .callScript tx => .ok (callScript env tx st)
  | .shield _ | .unshield _ | .privateTransfer .. =>
    .ok (.error (.contractError Simple.shieldedTxDisabledMsg), st)
  | .deferred tx => .ok (Simple.executeDeferred tx st)
  | .validatorExit tx => .ok (onLedger (Simple.executeValidatorExit epoch tx) st)
  | .validatorClaimStake tx => .ok (onLedger (Simple.executeValidatorClaimStake epoch tx) st)
  | .rotateValidatorKey tx =>
    .ok (onLedger (Simple.executeRotateValidatorKey epoch env.verifyProofOfPossession tx) st)
  | .refund tx => .ok (onLedger (Simple.executeRefund epoch tx) st)
  | _ => .error .panic

/-- Fee of a transaction of the serial phase: for its gas only. -/
def gasFee (cfg : ExecConfig) (txGas : ℕ) : ℕ :=
  match cfg.feeController with
  | none => 0
  | some fc => fc.computeGasFee txGas 0

/-- Charge the sender for gas. -/
def deductGasFee (cfg : ExecConfig) (epoch txGas : ℕ) (tx : Transaction) (db : Ledger) :
    Except String Unit × Ledger :=
  Simple.chargeFee cfg epoch (gasFee cfg txGas) tx db

/-- What was done of a block so far. -/
structure Progress (C S : Type) where
  st : ChainState C S
  gasUsed : ℕ
  totalFees : ℕ
  validatorKeyRotations : List ValidatorKeyRotation
  /-- With positions in the block. -/
  indexedOutcomes : List (ℕ × TxOutcome)

/-- In what the serial phases of the parallel executor and of Block-STM differ. -/
structure SerialPhase (C S : Type) where
  estimateGas : Transaction → ℕ
  /-- `overLimit blockGasLimit gasUsed txGas` -/
  overLimit : ℕ → ℕ → ℕ → Bool
  /-- Sum of two `u64`. -/
  add : ℕ → ℕ → ℕ
  execute : ChainEnv C S → ℕ → Transaction → ChainState C S →
    Except BlockFailure (Handled (ChainState C S))
  rotations : Transaction → List ValidatorKeyRotation

namespace Progress

/-- Record a transaction that was not executed. -/
def skip (r : Progress C S) (idx : ℕ) (txHash : Hash) (error : String) : Progress C S :=
  { r with indexedOutcomes := r.indexedOutcomes ++ [(idx, ⟨txHash, false, some error, 0⟩)] }

/-- Process the next transaction of the serial phase. Nothing is taken back when it fails, and the
block is lost when its handler ends it. -/
def step (phase : SerialPhase C S) (cfg : ExecConfig) (epoch : ℕ) (r : Progress C S)
    (x : ℕ × Transaction) : Except BlockFailure (Progress C S) :=
  let (idx, tx) := x
  let txHash := tx.txHash env.toExecEnv
  match verifyTxSignature env.toExecEnv cfg.verifySignatures tx cfg.chainId with
  | .error e =>
    let reason := e.toString
    .ok (r.skip idx txHash s!"signature: {reason}")
  | .ok () =>
    let txGas := phase.estimateGas tx
    if phase.overLimit r.st.blockGasLimit r.gasUsed txGas then
      .ok (r.skip idx txHash "block gas limit exceeded")
    else match deductGasFee cfg epoch txGas tx r.st.db with
      | (.error e, db) => .ok ({ r with st := { r.st with db := db } }.skip idx txHash e)
      | (.ok (), db) =>
        match phase.execute env epoch tx { r.st with db := db } with
        | .error failure => .error failure
        | .ok (.ok (), st) =>
          .ok
            { st := st
              gasUsed := phase.add r.gasUsed txGas
              totalFees := phase.add r.totalFees (gasFee cfg txGas)
              validatorKeyRotations := r.validatorKeyRotations ++ phase.rotations tx
              indexedOutcomes := r.indexedOutcomes ++ [(idx, ⟨txHash, true, none, txGas⟩)] }
        | .ok (.error e, st) =>
          .ok
            { r with
              st := st
              totalFees := phase.add r.totalFees (gasFee cfg txGas)
              indexedOutcomes := r.indexedOutcomes ++
                [(idx, ⟨txHash, false, some e.toString, txGas⟩)] }

end Progress

def serialPhase : SerialPhase C S where
  estimateGas := estimateGas
  overLimit limit gasUsed txGas := 0 < limit ∧ limit < (gasUsed + txGas) % 2 ^ 64
  add a b := (a + b) % 2 ^ 64
  execute := executeSerial
  rotations := Simple.rotationOf

/-! ### Partitions -/

variable (txs : List Transaction)

def parallelTxs : List (ℕ × Transaction) :=
  (enumerate txs).filter fun x => !isSerial x.2

def serialTxs : List (ℕ × Transaction) :=
  (enumerate txs).filter fun x => isSerial x.2

def partitions : List (List (ℕ × Transaction)) :=
  (partitionTransactions ((parallelTxs txs).map Prod.snd)).map fun group =>
    group.filterMap fun x => (parallelTxs txs)[x.1]?

/-- The gas limit is divided evenly. -/
def perPartitionGas (blockGasLimit numPartitions : ℕ) : ℕ :=
  if 0 < blockGasLimit then blockGasLimit / max numPartitions 1 else u64Max

def executePartitions (cfg : ExecConfig) (block : ExecBlock) (st : ChainState C S) :
    List PartitionResult :=
  let groups := partitions block.transactions
  groups.map fun group =>
    executePartition env.toExecEnv cfg block.epoch group
      (.populateFrom st.db.toStateDb (group.flatMap fun x => extractAccessKeys x.2))
      (perPartitionGas st.blockGasLimit groups.length)

/-- Add the result of a partition to the totals and merge its overlay. -/
def Progress.merge (r : Progress C S) (p : PartitionResult) : Progress C S :=
  { r with
    st := { r.st with
      db := { r.st.db with toStateDb := mergeOverlay r.st.db.toStateDb p.overlay } }
    gasUsed := (r.gasUsed + p.gasUsed) % 2 ^ 64
    totalFees := (r.totalFees + p.totalFees) % 2 ^ 64
    indexedOutcomes := r.indexedOutcomes ++ p.txOutcomes }

/-- After the partitions. No call is open yet. -/
def afterPartitions (cfg : ExecConfig) (block : ExecBlock) (st : ChainState C S) : Progress C S :=
  (executePartitions env cfg block st).foldl Progress.merge
    ⟨{ st with callDepth := 0 }, 0, 0, [], []⟩

/-! ### Blocks -/

def executeTransactions (cfg : ExecConfig) (block : ExecBlock) (st : ChainState C S) :
    Except BlockFailure (Progress C S) :=
  (serialTxs block.transactions).foldlM (Progress.step env serialPhase cfg block.epoch)
    (afterPartitions env cfg block st)

/-- Evaporate objects and tick the engines. There are no tombstones for objects. -/
def evaporate (cfg : ExecutorConfig) (epoch : ℕ) (objectIds : List ObjectId)
    (st : ChainState C S) : ChainState C S :=
  let r := processEvaporation env cfg.gracePeriod epoch objectIds st
  { st with
    db := r.db
    mmrSize := r.mmrSize
    contractEngine := env.contracts.tick st.contractEngine epoch
    scriptEngine := env.scripts.tick st.scriptEngine epoch }

/-- The end of a block: rent comes before the rewards. -/
def endBlock (input : Simple.BlockInput) (totalFees : ℕ) (st : ChainState C S) : ChainState C S :=
  let st := evaporate env input.cfg input.block.epoch input.scan.objectIds st
  let st := st.collectRent env input.block.epoch input.scan.accountAddresses
  distributeRewards input.block totalFees st

def executeBlock (st : ChainState C S) (input : Simple.BlockInput) :
    Except BlockFailure (BlockExecutionResult × ChainState C S) :=
  (executeTransactions env input.cfg.toExecConfig input.block st).map fun r =>
    ({ gasUsed := r.gasUsed
       baseFee := (input.cfg.feeController.map (·.baseFee)).getD 0
       totalFees := r.totalFees
       validatorKeyRotations := r.validatorKeyRotations
       txOutcomes := (r.indexedOutcomes.insertionSort fun a b => a.1 ≤ b.1).map Prod.snd },
      endBlock env input r.totalFees r.st)

end Parallel

end EvaporChain
