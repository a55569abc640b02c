import EvaporChain.Execution.Types
import EvaporChain.Core.Footprint

/-!
# Partitions of the parallel executor

Transactions that share an access key are put into one group. Each group is executed in order on an
overlay with clones of the state it may touch, and the overlays are merged back into the database.
-/

namespace EvaporChain

open Core

namespace Parallel

/-! ### Access keys and groups -/

/-- A piece of state that a transaction reads or writes. -/
inductive AccessKey
  | account (addr : AccountAddress)
  /-- An object or its ghost. -/
  | object (id : ObjectId)
  | contractEngine
  | scriptEngine
  | privacyEngine
  | temporalEngine
deriving DecidableEq

def extractAccessKeys (tx : Transaction) : List AccessKey :=
  match tx.body with
  | .transfer tx => [.account tx.fromAddr, .account tx.toAddr]
  | .createObject tx => [.account tx.creator, .object tx.objectId]
  | .refresh tx => [.object tx.objectId]
  | .deployContract tx => [.account tx.deployer, .contractEngine]
  | .callContract tx => [.account tx.caller, .contractEngine]
  | .deployScript tx => [.account tx.deployer, .scriptEngine]
  | .callScript tx => [.account tx.caller, .scriptEngine]
  | .validatorStake tx => [.account tx.validatorAddress]
  | .validatorExit tx => [.account tx.validatorAddress]
  | .validatorClaimStake tx => [.account tx.validatorAddress]
  | .shield fromAddr => [.account fromAddr, .privacyEngine]
  | .unshield toAddr => [.account toAddr, .privacyEngine]
  | .privateTransfer .. => [.privacyEngine]
  | .deferred tx => [.account tx.submitter, .temporalEngine]
  | .blob tx => [.account tx.submitter]
  | .governance tx => [.account tx.sender]
  | .multiSig tx => [.account tx.multisigAddress]
  | .userOp tx => .account tx.sender :: tx.paymaster.toList.map AccessKey.account
  | .upgradeContract tx => [.account tx.owner]
  | .delegate tx => [.account tx.delegator]
  | .undelegate tx => [.account tx.delegator]
  | .rotateValidatorKey tx => [.account tx.validatorAddress]
  | .claimDelegation tx => [.account tx.delegator]
  | .refund tx => [.account tx.attacker, .account tx.victim]
  | .deployTemplate tx => [.account tx.deployer]

def enumerate (txs : List Transaction) : List (ℕ × Transaction) := txs.zipIdx.map Prod.swap

/-- Groups of transactions connected by access keys, in the order of their first members. -/
def partitionTransactions (txs : List Transaction) : List (List (ℕ × Transaction)) :=
  groupByRoot (connect ((enumerate txs).map fun x => (x.1, extractAccessKeys x.2))) (enumerate txs)

/-! ### Overlays -/

/-- A partial copy of the database, with the deletions to be made when it is merged back. -/
structure Overlay extends StateDb where
  deletedObjects : ObjectId → Bool
  removedGhosts : ObjectId → Bool

namespace Overlay

/-- Clones of what the database holds under the given keys. -/
def populateFrom (db : StateDb) (keys : List AccessKey) : Overlay where
  accounts addr := if .account addr ∈ keys then db.accounts addr else none
  objects id := if .object id ∈ keys then db.objects id else none
  ghosts id := if .object id ∈ keys then db.ghosts id else none
  address_eq h := db.address_eq (Option.ite_none_right_eq_some.mp h).2
  id_eq h := db.id_eq (Option.ite_none_right_eq_some.mp h).2
  objectId_eq h := db.objectId_eq (Option.ite_none_right_eq_some.mp h).2
  deletedObjects _ := false
  removedGhosts _ := false

end Overlay

/-- Write an overlay back: put its accounts, delete, put its objects, remove, put its ghosts. -/
def mergeOverlay (db : StateDb) (overlay : Overlay) : StateDb where
  accounts addr := (overlay.accounts addr).or (db.accounts addr)
  objects id :=
    (overlay.objects id).or (if overlay.deletedObjects id then none else db.objects id)
  ghosts id :=
    (overlay.ghosts id).or (if overlay.removedGhosts id then none else db.ghosts id)
  address_eq h := by
    rcases Option.or_eq_some_iff.mp h with h | ⟨-, h⟩
    · exact overlay.address_eq h
    · exact db.address_eq h
  id_eq h := by
    rcases Option.or_eq_some_iff.mp h with h | ⟨-, h⟩
    · exact overlay.id_eq h
    · exact db.id_eq (Option.ite_none_left_eq_some.mp h).2
  objectId_eq h := by
    rcases Option.or_eq_some_iff.mp h with h | ⟨-, h⟩
    · exact overlay.objectId_eq h
    · exact db.objectId_eq (Option.ite_none_left_eq_some.mp h).2

abbrev OverlayM := StateM Overlay

variable (addr : AccountAddress)

def getAccount : OverlayM (Option Account) := fun overlay =>
  (overlay.accounts addr, overlay)

def getOrCreateAccount : OverlayM Account := fun overlay =>
  match overlay.accounts addr with
  | some acct => (acct, overlay)
  | none =>
    (.empty addr, { overlay with toStateDb := overlay.toStateDb.putAccount (.empty addr) })

def modifyAccount (f : Account → Account)
    (hf : ∀ acct, (f acct).address = acct.address) : OverlayM Unit := fun overlay =>
  ((), { overlay with toStateDb := overlay.toStateDb.modifyAccount addr f hf })

def getObject (id : ObjectId) : OverlayM (Option StateObject) := fun overlay =>
  (overlay.objects id, overlay)

def modifyObject (id : ObjectId) (f : StateObject → StateObject)
    (hf : ∀ obj, (f obj).id = obj.id) : OverlayM Unit := fun overlay =>
  ((), { overlay with toStateDb := overlay.toStateDb.modifyObject id f hf })

def putObject (obj : StateObject) : OverlayM Unit := fun overlay =>
  ((), { overlay with toStateDb := overlay.toStateDb.putObject obj })

def getGhost (id : ObjectId) : OverlayM (Option GhostRecord) := fun overlay =>
  (overlay.ghosts id, overlay)

def removeGhost (id : ObjectId) : OverlayM Unit := fun overlay =>
  ((), { overlay with
    toStateDb := overlay.toStateDb.removeGhost id
    removedGhosts := Function.update overlay.removedGhosts id true })

/-! ### Gas -/

/-- Gas of a transaction, in unchecked `u64` arithmetic where the code has it. -/
def estimateGas (tx : Transaction) : ℕ :=
  tx.body.gas (fun base unit n => (base + unit * n) % 2 ^ 64) (fun _ => 150000) 25000 50000 5000

/-! ### Execution of one transaction -/

/-- Computations on an overlay that may fail; what was changed before a failure stays. -/
abbrev ExecM := ExceptT ExecutionError OverlayM

section

variable (epoch : ℕ)

def execTransfer (tx : TransferTx) : ExecM Unit :=
  if tx.fromAddr = tx.toAddr then throw .selfTransfer
  else if tx.amount = 0 then throw .zeroAmount
  else do
    let sender ← getOrCreateAccount tx.fromAddr
    if tx.fromAddr ≠ Hash.zero ∧ sender.nonce ≠ tx.nonce then
      throw (.invalidNonce sender.nonce tx.nonce)
    else if sender.balance < tx.amount then
      throw (.insufficientBalance (hexEncode tx.fromAddr.toList) sender.balance tx.amount)
    else
      modifyAccount tx.fromAddr (fun acct =>
        { acct with
          balance := acct.balance - tx.amount
          -- transfers from the zero address mint and have no nonce
          nonce := if tx.fromAddr = Hash.zero then acct.nonce else (acct.nonce + 1) % 2 ^ 64
          lastTouchedEpoch := epoch }) fun _ => rfl
      let _ ← getOrCreateAccount tx.toAddr
      modifyAccount tx.toAddr (fun acct =>
        { acct with
          balance := satAdd acct.balance tx.amount
          lastTouchedEpoch := epoch }) fun _ => rfl

def execCreateObject (tx : CreateObjectTx) : ExecM Unit := do
  let existing ← getObject tx.objectId
  if existing.isSome then throw (.objectAlreadyExists (hexEncode tx.objectId.toList))
  else
    let creator ← getOrCreateAccount tx.creator
    if creator.balance < minStorageDeposit then
      throw (.insufficientBalance (hexEncode tx.creator.toList) creator.balance minStorageDeposit)
    else
      modifyAccount tx.creator (fun acct =>
        { acct with
          balance := acct.balance - minStorageDeposit
          storageDeposit := satAdd acct.storageDeposit minStorageDeposit
          storageBytes := satAdd acct.storageBytes (satAdd 97 tx.data.length)
          lastTouchedEpoch := epoch }) fun _ => rfl
      putObject (tx.object epoch)

def refreshFailed (e : RefreshError) : ExecM Unit := throw (.refreshFailed e.toString)

variable (tx : RefreshTx)

/-- Refresh an existing object; one in grace becomes active again. -/
def refresh (obj : StateObject) : ExecM Unit :=
  if tx.energyDeposit = 0 then refreshFailed .zeroEnergy
  else match obj.state with
    | .active | .resurrected =>
      modifyObject tx.objectId (fun obj =>
        { obj with
          energy := satAdd obj.energy tx.energyDeposit
          lastRefreshed := epoch }) fun _ => rfl
    | .grace =>
      modifyObject tx.objectId (fun obj =>
        { obj with
          energy := tx.energyDeposit
          state := .active
          lastRefreshed := epoch
          graceEpoch := none }) fun _ => rfl
    | .ghost => refreshFailed (.objectNotFound (hexEncode tx.objectId.toList))

/-- Bring a ghost back, if its data was retained. -/
def resurrect (ghost : GhostRecord) : ExecM Unit :=
  if tx.energyDeposit = 0 then refreshFailed .zeroEnergy
  else match ghost.originalData with
    | none => refreshFailed (.dataNotAvailable (hexEncode tx.objectId.toList))
    | some data => do
      removeGhost tx.objectId
      putObject
        (ghost.revived tx.objectId tx.energyDeposit (ghost.originalHalfLife.getD 100) epoch data)

def execRefresh : ExecM Unit := do
  match ← getObject tx.objectId with
  | some obj => refresh epoch tx obj
  | none =>
    match ← getGhost tx.objectId with
    | some ghost => resurrect epoch tx ghost
    | none => throw (.objectNotFound (hexEncode tx.objectId.toList))

def execValidatorStake (tx : ValidatorStakeTx) : ExecM Unit :=
  if tx.stakeAmount = 0 then throw .zeroAmount
  else do
    let sender ← getOrCreateAccount tx.validatorAddress
    if sender.nonce ≠ tx.nonce then throw (.invalidNonce sender.nonce tx.nonce)
    else if sender.balance < tx.stakeAmount then
      throw (.insufficientBalance (hexEncode tx.validatorAddress.toList) sender.balance
        tx.stakeAmount)
    else
      modifyAccount tx.validatorAddress (fun acct =>
        { acct with
          balance := acct.balance - tx.stakeAmount
          nonce := (acct.nonce + 1) % 2 ^ 64
          lastTouchedEpoch := epoch }) fun _ => rfl

/-- An overlay has no stake records, so an exit fails after the nonce was raised. -/
def execValidatorExit (tx : ValidatorExitTx) : ExecM Unit := do
  let sender ← getOrCreateAccount tx.validatorAddress
  if sender.nonce ≠ tx.nonce then throw (.invalidNonce sender.nonce tx.nonce)
  else
    modifyAccount tx.validatorAddress (fun acct =>
      { acct with nonce := (acct.nonce + 1) % 2 ^ 64, lastTouchedEpoch := epoch }) fun _ => rfl
    let id := tx.validatorId
    throw (.objectNotFound s!"no stake record for validator {id}")

/-- Dispatch on the kind of transaction; kinds that need a global engine are refused. -/
def execBody (tx : Transaction) : ExecM Unit :=
  match tx.body with
  | .transfer tx => execTransfer epoch tx
  | .createObject tx => execCreateObject epoch tx
  | .refresh tx => execRefresh epoch tx
  | .validatorStake tx => execValidatorStake epoch tx
  | .validatorExit tx => execValidatorExit epoch tx
  | .blob tx => ExceptT.mk (pure (checkBlob tx))
  | body => throw (.contractError body.serialMsg)

end

/-- How a transaction that passed the signature check ended. -/
inductive TxResult
  /-- The sender could not pay the fee. -/
  | unpaid (error : String)
  | failed (fee : ℕ) (error : ExecutionError)
  | done (fee : ℕ)

section

variable (env : ExecEnv) (cfg : ExecConfig) (epoch : ℕ) (tx : Transaction)

/-- Charge the sender; the result is the fee, or why it cannot be paid. -/
def deductFee (txGas : ℕ) : OverlayM (Except String ℕ) :=
  match cfg.feeController with
  | none => pure (.ok 0)
  | some fc =>
    let totalTxFee := (fc.computeGasFee txGas 0 + fc.extraFee env tx) % 2 ^ 64
    match tx.sender with
    | none => pure (.ok totalTxFee)
    | some addr => do
      let sender ← getOrCreateAccount addr
      let balance := sender.balance
      if balance < totalTxFee then
        return .error s!"insufficient balance for gas: {balance}/{totalTxFee}"
      else
        modifyAccount addr (fun acct =>
          { acct with balance := acct.balance - totalTxFee, lastTouchedEpoch := epoch })
          fun _ => rfl
        return .ok totalTxFee

/-- Balance and nonce of the sender, to go back to. -/
def senderSnapshot : OverlayM (Option (ℕ × ℕ)) :=
  match tx.sender with
  | none => pure none
  | some addr => do
    let acct ← getAccount addr
    return acct.map fun acct => (acct.balance, acct.nonce)

/-- Give the sender its balance and nonce back. Other changes stay. -/
def revertSender (snapshot : Option (ℕ × ℕ)) : OverlayM Unit :=
  match tx.sender, snapshot with
  | some addr, some (balance, nonce) =>
    modifyAccount addr (fun acct => { acct with balance := balance, nonce := nonce }) fun _ => rfl
  | _, _ => pure ()

/-- Deduct the fee and execute a transaction. -/
def runTx : OverlayM TxResult := do
  match ← deductFee env cfg epoch tx (estimateGas tx) with
  | .error e => return .unpaid e
  | .ok txFee =>
    let snapshot ← senderSnapshot tx
    match ← (execBody epoch tx).run with
    | .ok () => return .done txFee
    | .error e =>
      revertSender tx snapshot
      return .failed txFee e

/-! ### Execution of a partition -/

/-- What was executed of a partition so far. -/
structure PartitionResult where
  overlay : Overlay
  txsExecuted : ℕ
  txsFailed : ℕ
  gasUsed : ℕ
  totalFees : ℕ
  txOutcomes : List (ℕ × TxOutcome)
  gasBudget : ℕ

namespace PartitionResult

/-- Record a transaction that was not executed. -/
def skip (r : PartitionResult) (idx : ℕ) (txHash : Hash) (error : String) : PartitionResult :=
  { r with
    txsFailed := r.txsFailed + 1
    txOutcomes := r.txOutcomes ++ [(idx, ⟨txHash, false, some error, 0⟩)] }

def step (r : PartitionResult) (x : ℕ × Transaction) : PartitionResult :=
  let (idx, tx) := x
  let txHash := tx.txHash env
  match verifyTxSignature env cfg.verifySignatures tx cfg.chainId with
  | .error e =>
    let reason := e.toString
    r.skip idx txHash s!"signature: {reason}"
  | .ok () =>
    let txGas := estimateGas tx
    if r.gasBudget < txGas then r.skip idx txHash "block gas limit exceeded"
    else
      let (result, overlay) := runTx env cfg epoch tx r.overlay
      match result with
      | .unpaid error => { r with overlay := overlay }.skip idx txHash error
      | .done fee =>
        { overlay := overlay
          txsExecuted := r.txsExecuted + 1
          txsFailed := r.txsFailed
          gasUsed := (r.gasUsed + txGas) % 2 ^ 64
          totalFees := (r.totalFees + fee) % 2 ^ 64
          txOutcomes := r.txOutcomes ++ [(idx, ⟨txHash, true, none, txGas⟩)]
          gasBudget := r.gasBudget - txGas }
      | .failed fee e =>
        { r with
          overlay := overlay
          txsFailed := r.txsFailed + 1
          totalFees := (r.totalFees + fee) % 2 ^ 64
          txOutcomes := r.txOutcomes ++ [(idx, ⟨txHash, false, some e.toString, txGas⟩)] }

end PartitionResult

def executePartition (txs : List (ℕ × Transaction)) (overlay : Overlay) (gasBudget : ℕ) :
    PartitionResult :=
  txs.foldl (PartitionResult.step env cfg epoch) ⟨overlay, 0, 0, 0, 0, [], gasBudget⟩

/-- Execute a group of transactions on its own overlay, without a gas limit. -/
def executeGroup (db : StateDb) (group : List (ℕ × Transaction)) : PartitionResult :=
  executePartition env cfg epoch group
    (.populateFrom db (group.flatMap fun x => extractAccessKeys x.2)) u64Max

end

end Parallel

end EvaporChain
