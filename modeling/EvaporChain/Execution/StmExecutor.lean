import EvaporChain.Execution.BlockStm
import EvaporChain.Execution.ParallelExecutor

/-!
# Blocks of the Block-STM executor

Transactions that stay within accounts and objects run optimistically, or one after the other on a
local copy if there are few of them; the others follow in block order. An exit or a claim of a
stake that is not in order ends the execution of the whole block.
-/

namespace EvaporChain

open Core

namespace BlockStm

open Simple (Handled)
open Parallel (Progress SerialPhase)

/-! ### The sequential path -/

/-- Local copies of what was written, and the totals. -/
structure Sequential where
  accounts : AccountAddress → Option Account
  objects : ObjectId → Option (Option StateObject)
  txsExecuted : ℕ
  txsFailed : ℕ
  gasUsed : ℕ
  totalFees : ℕ
  txOutcomes : List TxOutcome

namespace Sequential

def start : Sequential := ⟨fun _ => none, fun _ => none, 0, 0, 0, 0, []⟩

variable (db : StateDb) (s : Sequential) (addr : AccountAddress)

def getBalance : ℕ :=
  ((s.accounts addr).or (db.accounts addr)).elim 0 (·.balance)

def getNonce : ℕ :=
  ((s.accounts addr).or (db.accounts addr)).elim 0 (·.nonce)

/-- Copies carry only balance and nonce. -/
def insert (balance nonce epoch : ℕ) : Sequential :=
  { s with
    accounts := Function.update s.accounts addr
      (some { Account.empty addr with
        balance := balance, nonce := nonce, lastTouchedEpoch := epoch }) }

variable (env : ExecEnv) (cfg : ExecConfig) (epoch : ℕ) (s : Sequential)

/-- Charge the sender; the result is the fee, or why the transaction is not executed. -/
def deductFee (tx : Transaction) : Except String ℕ × Sequential :=
  match cfg.feeController with
  | none => (.ok 0, s)
  | some fc =>
    let totalTxFee := fc.computeGasFee (estimateGas tx) 0 + fc.extraFee env tx
    if u64Max < totalTxFee then (.error "fee overflow", s)
    else match tx.sender with
      | none => (.ok totalTxFee, s)
      | some addr =>
        let bal := s.getBalance db addr
        if bal < totalTxFee then
          (.error s!"insufficient balance for gas: {bal}/{totalTxFee}", s)
        else (.ok totalTxFee, s.insert addr (bal - totalTxFee) (s.getNonce db addr) epoch)

/-- A receiver whose balance would overflow gets nothing; the sender has paid nevertheless. -/
def transfer (t : TransferTx) : Bool × Sequential :=
  let sb := s.getBalance db t.fromAddr
  let sn := s.getNonce db t.fromAddr
  if t.fromAddr = t.toAddr ∨ t.amount = 0 then (false, s)
  else if sn ≠ t.nonce ∨ sb < t.amount then (false, s)
  else if u64Max < sn + 1 then (false, s)
  else
    let s := s.insert t.fromAddr (sb - t.amount) (sn + 1) epoch
    let rb := s.getBalance db t.toAddr
    if u64Max < rb + t.amount then (false, s)
    else (true, s.insert t.toAddr (rb + t.amount) (s.getNonce db t.toAddr) epoch)

def getObject (id : ObjectId) : Option StateObject :=
  (s.objects id).getD (db.objects id)

def putObject (obj : StateObject) : Sequential :=
  { s with objects := Function.update s.objects obj.id (some (some obj)) }

/-- No deposit is locked. -/
def createObject (t : CreateObjectTx) : Bool × Sequential :=
  if (s.getObject db t.objectId).isSome then (false, s)
  else (true, s.putObject (t.object epoch))

/-- Ghosts are not brought back. -/
def refresh (t : RefreshTx) : Bool × Sequential :=
  match s.getObject db t.objectId with
  | none => (false, s)
  | some obj => (true, s.putObject (refreshed epoch t.energyDeposit obj))

def validatorStake (t : ValidatorStakeTx) : Bool × Sequential :=
  let bal := s.getBalance db t.validatorAddress
  let nonce := s.getNonce db t.validatorAddress
  if t.stakeAmount = 0 ∨ nonce ≠ t.nonce ∨ bal < t.stakeAmount then (false, s)
  else if u64Max < nonce + 1 then (false, s)
  else (true, s.insert t.validatorAddress (bal - t.stakeAmount) (nonce + 1) epoch)

def validatorExit (t : ValidatorExitTx) : Bool × Sequential :=
  let bal := s.getBalance db t.validatorAddress
  let nonce := s.getNonce db t.validatorAddress
  if nonce ≠ t.nonce then (false, s)
  else if u64Max < nonce + 1 then (false, s)
  else (true, s.insert t.validatorAddress bal (nonce + 1) epoch)

/-- Whether a transaction succeeds; other kinds fail. -/
def execute (tx : Transaction) : Bool × Sequential :=
  match tx.body with
  | .transfer t => s.transfer db epoch t
  | .createObject t => s.createObject db epoch t
  | .refresh t => s.refresh db epoch t
  | .validatorStake t => s.validatorStake db epoch t
  | .validatorExit t => s.validatorExit db epoch t
  | _ => (false, s)

def step (tx : Transaction) : Sequential :=
  let txHash := tx.txHash env
  let txGas := estimateGas tx
  match s.deductFee db env cfg epoch tx with
  | (.error e, s) =>
    { s with
      txsFailed := s.txsFailed + 1
      txOutcomes := s.txOutcomes ++ [⟨txHash, false, some e, 0⟩] }
  | (.ok txFee, s) =>
    match s.execute db epoch tx with
    | (true, s) =>
      { s with
        txsExecuted := s.txsExecuted + 1
        gasUsed := satAdd s.gasUsed txGas
        totalFees := satAdd s.totalFees txFee
        txOutcomes := s.txOutcomes ++ [⟨txHash, true, none, txGas⟩] }
    | (false, s) =>
      { s with
        txsFailed := s.txsFailed + 1
        totalFees := satAdd s.totalFees txFee
        txOutcomes := s.txOutcomes ++ [⟨txHash, false, some "execution failed", txGas⟩] }

end Sequential

/-- The sequential path. Signatures and the gas limit are not checked. -/
def executeSequential (env : ExecEnv) (cfg : ExecConfig) (db : StateDb) (epoch : ℕ)
    (txs : List Transaction) : ParallelResult :=
  let s := run (Sequential.step db env cfg epoch) .start txs
  { txsExecuted := s.txsExecuted
    txsFailed := s.txsFailed
    gasUsed := s.gasUsed
    totalFees := s.totalFees
    finalWrites :=
      { accounts addr := (s.accounts addr).map fun a => (a.balance, a.nonce, a.lastTouchedEpoch)
        storage addr :=
          ((s.accounts addr).filter fun a => 0 < a.storageDeposit || 0 < a.storageBytes).map
            fun a => (a.storageDeposit, a.storageBytes)
        objects := s.objects
        ghosts _ := none }
    txOutcomes := s.txOutcomes }

/-- Write the results back. Objects and ghosts are put under their own ids, which are the ones they
were written under. -/
def applyWrites (db : StateDb) (writes : FinalWrites) : StateDb where
  accounts addr :=
    let written : Option Account :=
      match writes.accounts addr with
      | some (balance, nonce, epoch) =>
        some { db.account addr with
          address := addr, balance := balance, nonce := nonce, lastTouchedEpoch := epoch }
      | none => db.accounts addr
    match writes.storage addr with
    | some (deposit, bytes) =>
      some { written.getD (.empty addr) with
        address := addr, storageDeposit := deposit, storageBytes := bytes }
    | none => written
  objects id := (writes.objects id).elim (db.objects id) (Option.filter (·.id = id))
  ghosts id := (writes.ghosts id).elim (db.ghosts id) (Option.filter (·.objectId = id))
  address_eq h := by
    dsimp only at h
    split at h
    · cases h
      rfl
    · split at h
      · cases h
        rfl
      · exact db.address_eq h
  id_eq {id obj} h := by
    cases hw : writes.objects id with
    | none =>
      rw [hw] at h
      exact db.id_eq h
    | some written =>
      rw [hw, Option.elim_some, Option.filter_eq_some_iff] at h
      exact of_decide_eq_true h.2
  objectId_eq {id ghost} h := by
    cases hw : writes.ghosts id with
    | none =>
      rw [hw] at h
      exact db.objectId_eq h
    | some written =>
      rw [hw, Option.elim_some, Option.filter_eq_some_iff] at h
      exact of_decide_eq_true h.2

/-! ### Serial transactions -/

section

variable {C S : Type} (env : ChainEnv C S)

/-- Kinds that are executed after the others. -/
def isSerial (tx : Transaction) : Bool :=
  match tx.body with
  | .deployContract _ | .callContract _ | .deployScript _ | .callScript _ | .shield _
  | .unshield _ | .privateTransfer .. | .deferred _ | .validatorExit _
  | .validatorClaimStake _ => true
  | _ => false

/-- An exit with the right nonce and without a stake of its own ends the block. -/
def executeValidatorExit (epoch : ℕ) (tx : ValidatorExitTx) (db : Ledger) :
    Except ExecutionError (Handled Ledger) :=
  let sender := db.account tx.validatorAddress
  if sender.nonce ≠ tx.nonce then
    .ok (.error (.invalidNonce sender.nonce tx.nonce), db.touchAccount tx.validatorAddress)
  else
    let db := db.updateAccount tx.validatorAddress fun acct =>
      { acct with nonce := (acct.nonce + 1) % 2 ^ 64 }
    match db.stakes.lookup tx.validatorId with
    | none => .error (Simple.noStakeRecord tx.validatorId)
    | some stake =>
      if stake.validatorAddress ≠ tx.validatorAddress then .error .invalidSignature
      else if stake.unbondingEpoch.isSome then
        .ok (.error (.contractError "validator already exiting"), db)
      else
        .ok (.ok (), db.putStake
          { stake with
            unbondingEpoch := some ((epoch + Simple.unbondingPeriodEpochs) % 2 ^ 64) })

/-- A claim of what is not an own stake in exit, or one with a wrong nonce, ends the block. -/
def executeValidatorClaimStake (epoch : ℕ) (tx : ValidatorClaimStakeTx) (db : Ledger) :
    Except ExecutionError (Handled Ledger) :=
  match db.stakes.lookup tx.validatorId with
  | none => .error (Simple.noStakeRecord tx.validatorId)
  | some stake =>
    if stake.validatorAddress ≠ tx.validatorAddress then .error .invalidSignature
    else match stake.unbondingEpoch with
      | none =>
        .error (.contractError "validator has not exited — cannot claim stake")
      | some unbonding =>
        let sender := db.account tx.validatorAddress
        if epoch < unbonding then
          .ok (.error (.contractError s!"unbonding period not complete: current epoch {epoch} < unbonding epoch {unbonding}"), db)
        else if sender.nonce ≠ tx.nonce then .error (.invalidNonce sender.nonce tx.nonce)
        else
          .ok (.ok (), (db.updateAccount tx.validatorAddress
            (·.claim stake.claimable epoch)).removeStake tx.validatorId)

/-- Run a handler that may end the block and needs only the database. -/
def onLedger (f : Ledger → Except ExecutionError (Handled Ledger)) (st : ChainState C S) :
    Except BlockFailure (Handled (ChainState C S)) :=
  match f st.db with
  | .error e => .error (.error e)
  | .ok (result, db) => .ok (result, { st with db := db })

/-- Execute a transaction of the serial phase; there is no arm for the other kinds. -/
def executeSerialTx (epoch : ℕ) (tx : Transaction) (st : ChainState C S) :
    Except BlockFailure (Handled (ChainState C S)) :=
  match tx.body with
  | .validatorExit tx => onLedger (executeValidatorExit epoch tx) st
  | .validatorClaimStake tx => onLedger (executeValidatorClaimStake epoch tx) st
  | .deployContract tx => .ok (Parallel.deployContract env epoch tx st)
  | .callContract tx => .ok (Parallel.callContract env tx st)
  | .deployScript tx => .ok (Parallel.deployScript env epoch tx st)
  | .callScript tx => .ok (Parallel.callScript env tx st)
  | .shield _ | .unshield _ | .privateTransfer .. =>
    .ok (.error (.contractError Simple.shieldedTxDisabledMsg), st)
  | .deferred tx => .ok (Simple.executeDeferred tx st)
  | _ => .error .panic

/-- A block has no key rotations. -/
def serialPhase : SerialPhase C S where
  estimateGas := estimateGas
  overLimit limit gasUsed txGas := overLimit limit (gasUsed + txGas)
  add := satAdd
  execute := executeSerialTx
  rotations _ := []

/-! ### Blocks -/

def parallelTxs (txs : List Transaction) : List (ℕ × Transaction) :=
  (Parallel.enumerate txs).filter fun x => !isSerial x.2

def serialTxs (txs : List Transaction) : List (ℕ × Transaction) :=
  (Parallel.enumerate txs).filter fun x => isSerial x.2

/-- A block with its settings: below the threshold transactions run one after the other, otherwise
in the order of single actions that `sched` gives for each wave. -/
structure BlockInput extends Simple.BlockInput where
  parallelThreshold : ℕ
  sched : ℕ → List ℕ

variable (input : BlockInput) (st : ChainState C S)

/-- The transactions that are not serial, executed on the database before the block. -/
def parallelPhase : ParallelResult :=
  let txs := (parallelTxs input.block.transactions).map Prod.snd
  let cfg := input.cfg.toExecConfig
  if input.parallelThreshold ≤ txs.length then
    executeParallel env.toExecEnv cfg st.db.toStateDb input.block.epoch txs st.blockGasLimit
      input.sched
  else executeSequential env.toExecEnv cfg st.db.toStateDb input.block.epoch txs

/-- After the parallel phase. Outcomes go to the positions of their transactions. -/
def afterParallel : Progress C S :=
  let r := parallelPhase env input st
  { st := { st with
      db := { st.db with toStateDb := applyWrites st.db.toStateDb r.finalWrites }
      callDepth := 0 }
    gasUsed := r.gasUsed
    totalFees := r.totalFees
    validatorKeyRotations := []
    indexedOutcomes := ((parallelTxs input.block.transactions).map Prod.fst).zip r.txOutcomes }

def executeTransactions : Except BlockFailure (Progress C S) :=
  (serialTxs input.block.transactions).foldlM
    (Progress.step env serialPhase input.cfg.toExecConfig input.block.epoch)
    (afterParallel env input st)

/-- Charge an account for its stored bytes. The money goes nowhere. -/
def rentStep (db : Ledger) (addr : AccountAddress) : Ledger :=
  match db.accounts addr with
  | none => db
  | some acct =>
    let rent := satMul acct.storageBytes 1
    if acct.storageBytes = 0 then db
    else if rent ≤ acct.balance then
      db.updateAccount addr fun acct => { acct with balance := acct.balance - rent }
    else
      db.updateAccount addr fun acct =>
        { acct with balance := 0, storageDeposit := 0, storageBytes := 0 }

def collectRent (epoch : ℕ) (addresses : List AccountAddress) (st : ChainState C S) :
    ChainState C S :=
  let lastRentEpoch := st.db.lastRentEpoch
  if epoch ≤ lastRentEpoch then st
  else
    let st := { st with db := addresses.foldl rentStep st.db }
    let st := addresses.foldl (ChainState.demurrageStep env lastRentEpoch epoch) st
    { st with db := { st.db with lastRentEpoch := epoch } }

/-- Execute a block, unless it ends with an error. There are no rewards and no key rotations. -/
def executeBlock (st : ChainState C S) (input : BlockInput) :
    Except BlockFailure (BlockExecutionResult × ChainState C S) :=
  (executeTransactions env input st).map fun r =>
    ({ gasUsed := r.gasUsed
       baseFee := (input.cfg.feeController.map (·.baseFee)).getD 0
       totalFees := r.totalFees
       validatorKeyRotations := []
       txOutcomes := (r.indexedOutcomes.insertionSort fun a b => a.1 ≤ b.1).map Prod.snd },
      collectRent env input.block.epoch input.scan.accountAddresses
        (Parallel.evaporate env input.cfg input.block.epoch input.scan.objectIds r.st))

end

end BlockStm

end EvaporChain
