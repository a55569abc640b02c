import EvaporChain.Execution.Types
import EvaporChain.Core.Optimistic

/-!
# Transaction views of the Block-STM executor

A transaction runs against a view: it reads its own writes, then the multi-version memory, then
the base database. It buffers its writes, and a failure takes the buffer back to where it was
after the fees. Seen from outside, it is a program that reads locations and returns its writes.
-/

namespace EvaporChain

open Core

namespace BlockStm

/-- A location in the state that can be read or written. -/
inductive Location
  | accountBalance (addr : AccountAddress)
  | accountNonce (addr : AccountAddress)
  | accountStorageDeposit (addr : AccountAddress)
  | accountStorageBytes (addr : AccountAddress)
  | object (id : ObjectId)
  | ghost (id : ObjectId)
deriving DecidableEq

/-- Concrete state values of the multi-version memory. -/
inductive ValuePayload
  | balance (balance : ℕ)
  | nonce (nonce : ℕ)
  | storageDeposit (deposit : ℕ)
  | storageBytes (bytes : ℕ)
  | object (obj : StateObject)
  | objectDeleted
  | ghost (record : GhostRecord)
  | ghostRemoved
deriving DecidableEq

/-- Payloads that the readers of a location match on; any other counts as not found. -/
def accepts : Location → ValuePayload → Bool
  | .accountBalance _, .balance _ => true
  | .accountNonce _, .nonce _ => true
  | .accountStorageDeposit _, .storageDeposit _ => true
  | .accountStorageBytes _, .storageBytes _ => true
  | .object _, .object _ => true
  | .object _, .objectDeleted => true
  | .ghost _, .ghost _ => true
  | .ghost _, .ghostRemoved => true
  | _, _ => false

abbrev WriteEntry := Entry accepts

/-- The view of a running transaction. The read set is kept by the machine that runs it. -/
structure TxView where
  writeBuffer : List WriteEntry
  /-- Length of the buffer after the fees were deducted. -/
  feeCheckpoint : ℕ
  localAccounts : AccountAddress → Option Account
  localObjects : ObjectId → Option StateObject
  localObjectsDeleted : ObjectId → Bool
  localGhosts : ObjectId → Option GhostRecord
  localGhostsRemoved : ObjectId → Bool

def TxView.new : TxView where
  writeBuffer := []
  feeCheckpoint := 0
  localAccounts _ := none
  localObjects _ := none
  localObjectsDeleted _ := false
  localGhosts _ := none
  localGhostsRemoved _ := false

/-- Computations on a view that may read the memory. -/
abbrev ViewM := StateT TxView (Prog Location ValuePayload)

/-- Read a location of the multi-version memory. -/
def readMemory (loc : Location) : ViewM (Option ValuePayload) :=
  StateT.lift (Prog.read loc Prog.ret)

namespace TxView

/-- Local accounts as far as a list of writes determines them. -/
def rebuildAccounts (buffer : List WriteEntry) : AccountAddress → Option Account :=
  buffer.foldl (fun accounts entry =>
    match entry.loc, entry.value with
    | .accountBalance addr, .balance bal =>
      Function.update accounts addr
        (some { (accounts addr).getD (Account.empty addr) with balance := bal })
    | .accountNonce addr, .nonce nonce =>
      Function.update accounts addr
        (some { (accounts addr).getD (Account.empty addr) with nonce := nonce })
    | _, _ => accounts) fun _ => none

def checkpointAfterFees : ViewM Unit :=
  modify fun view => { view with feeCheckpoint := view.writeBuffer.length }

def revertToFeeCheckpoint : ViewM Unit :=
  modify fun view =>
    let buffer := view.writeBuffer.take view.feeCheckpoint
    { TxView.new with
      writeBuffer := buffer
      feeCheckpoint := view.feeCheckpoint
      localAccounts := rebuildAccounts buffer }

variable (db : StateDb) (addr : AccountAddress)

/-- Read a field of an account: local writes, then the memory, then the base database. -/
def readAccountField (loc : Location) (field : Account → ℕ)
    (payload : ValuePayload → Option ℕ) : ViewM ℕ := do
  match (← get).localAccounts addr with
  | some acct => return field acct
  | none =>
    match (← readMemory loc).bind payload with
    | some n => return n
    | none => return (db.accounts addr).elim 0 field

def readBalance : ViewM ℕ :=
  readAccountField db addr (.accountBalance addr) (·.balance)
    fun | .balance n => some n | _ => none

def readNonce : ViewM ℕ :=
  readAccountField db addr (.accountNonce addr) (·.nonce)
    fun | .nonce n => some n | _ => none

def readStorageDeposit : ViewM ℕ :=
  readAccountField db addr (.accountStorageDeposit addr) (·.storageDeposit)
    fun | .storageDeposit n => some n | _ => none

def readStorageBytes : ViewM ℕ :=
  readAccountField db addr (.accountStorageBytes addr) (·.storageBytes)
    fun | .storageBytes n => some n | _ => none

def readObject (id : ObjectId) : ViewM (Option StateObject) := do
  let view ← get
  if view.localObjectsDeleted id then return none
  match view.localObjects id with
  | some obj => return some obj
  | none =>
    match ← readMemory (.object id) with
    | some (.object obj) => return some obj
    | some .objectDeleted => return none
    | _ => return db.objects id

def readGhost (id : ObjectId) : ViewM (Option GhostRecord) := do
  let view ← get
  if view.localGhostsRemoved id then return none
  match view.localGhosts id with
  | some ghost => return some ghost
  | none =>
    match ← readMemory (.ghost id) with
    | some (.ghost record) => return some record
    | some .ghostRemoved => return none
    | _ => return db.ghosts id

/-- Write balance and nonce. The local copy forgets the storage fields. -/
def writeAccount (addr : AccountAddress) (balance nonce epoch : ℕ) : ViewM Unit :=
  modify fun view =>
    { view with
      localAccounts := Function.update view.localAccounts addr
        (some { Account.empty addr with
          balance := balance, nonce := nonce, lastTouchedEpoch := epoch })
      writeBuffer := view.writeBuffer ++
        [⟨.accountBalance addr, .balance balance, rfl⟩, ⟨.accountNonce addr, .nonce nonce, rfl⟩] }

def writeStorageFields (addr : AccountAddress) (deposit bytes : ℕ) : ViewM Unit :=
  modify fun view =>
    { view with
      localAccounts := Function.update view.localAccounts addr
        ((view.localAccounts addr).map fun acct =>
          { acct with storageDeposit := deposit, storageBytes := bytes })
      writeBuffer := view.writeBuffer ++
        [⟨.accountStorageDeposit addr, .storageDeposit deposit, rfl⟩,
          ⟨.accountStorageBytes addr, .storageBytes bytes, rfl⟩] }

def writeObject (obj : StateObject) : ViewM Unit :=
  modify fun view =>
    { view with
      localObjectsDeleted := Function.update view.localObjectsDeleted obj.id false
      localObjects := Function.update view.localObjects obj.id (some obj)
      writeBuffer := view.writeBuffer ++ [⟨.object obj.id, .object obj, rfl⟩] }

def removeGhost (id : ObjectId) : ViewM Unit :=
  modify fun view =>
    { view with
      localGhosts := Function.update view.localGhosts id none
      localGhostsRemoved := Function.update view.localGhostsRemoved id true
      writeBuffer := view.writeBuffer ++ [⟨.ghost id, .ghostRemoved, rfl⟩] }

end TxView

/-! ### Gas -/

/-- Gas of a transaction, in saturating arithmetic where the code has it. -/
def estimateGas (tx : Transaction) : ℕ :=
  tx.body.gas saturatingGas (fun _ => 150000) 30000 30000 21000

/-! ### Execution of one transaction -/

/-- Computations on a view that may fail. -/
abbrev ExecM := ExceptT ExecutionError ViewM

open TxView

section

variable (db : StateDb) (epoch : ℕ)

/-- Sum of two `u64`, or the given error on overflow. -/
def checkedAdd (a b : ℕ) (error : ExecutionError) : ExecM ℕ :=
  if a + b ≤ u64Max then pure (a + b) else throw error

def execTransfer (tx : TransferTx) : ExecM Unit := do
  if tx.fromAddr = tx.toAddr then throw .selfTransfer
  if tx.amount = 0 then throw .zeroAmount
  let isMintBypass := tx.fromAddr = Hash.zero
  let senderBalance ← readBalance db tx.fromAddr
  let senderNonce ← readNonce db tx.fromAddr
  if ¬ isMintBypass ∧ senderNonce ≠ tx.nonce then throw (.invalidNonce senderNonce tx.nonce)
  if senderBalance < tx.amount then
    throw (.insufficientBalance (hexEncode tx.fromAddr.toList) senderBalance tx.amount)
  let newSenderNonce ←
    if isMintBypass then pure senderNonce
    else checkedAdd senderNonce 1 (.contractError "nonce overflow")
  writeAccount tx.fromAddr (senderBalance - tx.amount) newSenderNonce epoch
  let recvBalance ← readBalance db tx.toAddr
  let recvNonce ← readNonce db tx.toAddr
  let newRecvBalance ← checkedAdd recvBalance tx.amount
    (.insufficientBalance (hexEncode tx.toAddr.toList) recvBalance tx.amount)
  writeAccount tx.toAddr newRecvBalance recvNonce epoch

def execCreateObject (tx : CreateObjectTx) : ExecM Unit := do
  if (← readObject db tx.objectId).isSome then
    throw (.objectAlreadyExists (hexEncode tx.objectId.toList))
  let objectBytes := satAdd 97 tx.data.length
  let bal ← readBalance db tx.creator
  if bal < minStorageDeposit then
    throw (.insufficientBalance (hexEncode tx.creator.toList) bal minStorageDeposit)
  let nonce ← readNonce db tx.creator
  writeAccount tx.creator (bal - minStorageDeposit) nonce epoch
  let curDeposit ← readStorageDeposit db tx.creator
  let curBytes ← readStorageBytes db tx.creator
  writeStorageFields tx.creator (satAdd curDeposit minStorageDeposit) (satAdd curBytes objectBytes)
  writeObject (tx.object epoch)

/-- A refreshed object; one in grace becomes active again. -/
def refreshed (energyDeposit : ℕ) (obj : StateObject) : StateObject :=
  let refreshed :=
    { obj with energy := satAdd obj.energy energyDeposit, lastRefreshed := epoch }
  if obj.state = .grace then { refreshed with state := .active, graceEpoch := none } else refreshed

def revived (energyDeposit : ℕ) (ghost : GhostRecord) : StateObject :=
  ghost.revived ghost.objectId energyDeposit 100 epoch (ghost.originalData.getD [])

def execRefresh (tx : RefreshTx) : ExecM Unit := do
  match ← readObject db tx.objectId with
  | some obj => writeObject (refreshed epoch tx.energyDeposit obj)
  | none =>
    match ← readGhost db tx.objectId with
    | some ghost =>
      writeObject (revived epoch tx.energyDeposit ghost)
      removeGhost tx.objectId
    | none => throw (.objectNotFound (hexEncode tx.objectId.toList))

def execValidatorStake (tx : ValidatorStakeTx) : ExecM Unit := do
  if tx.stakeAmount = 0 then throw .zeroAmount
  let balance ← readBalance db tx.validatorAddress
  let nonce ← readNonce db tx.validatorAddress
  if nonce ≠ tx.nonce then throw (.invalidNonce nonce tx.nonce)
  if balance < tx.stakeAmount then
    throw (.insufficientBalance (hexEncode tx.validatorAddress.toList) balance tx.stakeAmount)
  let newNonce ← checkedAdd nonce 1 (.contractError "nonce overflow")
  writeAccount tx.validatorAddress (balance - tx.stakeAmount) newNonce epoch

def execValidatorExit (tx : ValidatorExitTx) : ExecM Unit := do
  let balance ← readBalance db tx.validatorAddress
  let nonce ← readNonce db tx.validatorAddress
  if nonce ≠ tx.nonce then throw (.invalidNonce nonce tx.nonce)
  let newNonce ← checkedAdd nonce 1 (.contractError "nonce overflow")
  writeAccount tx.validatorAddress balance newNonce epoch

/-- Dispatch on the kind of transaction; kinds that need a global engine are refused. -/
def execBody (tx : Transaction) : ExecM Unit :=
  match tx.body with
  | .transfer tx => execTransfer db epoch tx
  | .createObject tx => execCreateObject db epoch tx
  | .refresh tx => execRefresh db epoch tx
  | .validatorStake tx => execValidatorStake db epoch tx
  | .validatorExit tx => execValidatorExit db epoch tx
  | .blob tx => ExceptT.mk (pure (checkBlob tx))
  | .deployContract _ | .callContract _ | .deployScript _ | .callScript _ | .shield _
  | .unshield _ | .privateTransfer .. | .deferred _ | .deployTemplate _ =>
    throw (.contractError "contract/script/privacy/deferred/template txs execute in serial phase")
  | body => throw (.contractError body.serialMsg)

end

inductive TxExecResult
  | success (gasUsed fee : ℕ)
  /-- The fee is charged nevertheless. -/
  | failed (fee : ℕ) (error : Option String)
deriving DecidableEq

section

variable (env : ExecEnv) (cfg : ExecConfig) (db : StateDb) (epoch : ℕ) (tx : Transaction)

/-- Charge the sender; the result is the fee, or the reason not to execute the transaction. -/
def deductFee (txGas : ℕ) : ExceptT TxExecResult ViewM ℕ := do
  match cfg.feeController with
  | none => return 0
  | some fc =>
    let totalTxFee := fc.computeGasFee txGas 0 + fc.extraFee env tx
    if u64Max < totalTxFee then throw (.failed 0 (some "fee overflow"))
    match tx.sender with
    | none => return totalTxFee
    | some sender =>
      let balance ← readBalance db sender
      if balance < totalTxFee then
        throw (.failed 0 (some s!"insufficient balance for gas: {balance}/{totalTxFee}"))
      let nonce ← readNonce db sender
      writeAccount sender (balance - totalTxFee) nonce epoch
      return totalTxFee

def executeTx : ViewM TxExecResult := do
  let txGas := estimateGas tx
  match ← (deductFee env cfg db epoch tx txGas).run with
  | .error failed => return failed
  | .ok txFee =>
    checkpointAfterFees
    match ← (execBody db epoch tx).run with
    | .ok () => return .success txGas txFee
    | .error e =>
      revertToFeeCheckpoint
      return .failed txFee (some e.toString)

/-- The program of a transaction: check the signature, execute, return the buffered writes. -/
def txProgram : Txn accepts TxExecResult :=
  match verifyTxSignature env cfg.verifySignatures tx cfg.chainId with
  | .error _ => .ret ([], .failed 0 (some "signature verification failed"))
  | .ok () =>
    ((executeTx env cfg db epoch tx).run TxView.new).bind fun (result, view) =>
      .ret (view.writeBuffer, result)

end

end BlockStm

end EvaporChain
