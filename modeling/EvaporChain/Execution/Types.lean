import EvaporChain.Core.Bytes
import EvaporChain.Core.Saturating

/-!
# Accounts, objects and transactions

The state the executors work on and the parts of transactions that they read, with the
per-transaction data shared by all executors: who pays, signature checks, fees and errors.
-/

namespace EvaporChain

open Core Function

abbrev AccountAddress := Hash

abbrev ObjectId := Hash

/-! ### State -/

/-- Schedule of the locked part of a balance. -/
structure VestingLock where
  cliffEpoch : ℕ
  linearReleaseEpochs : ℕ
  totalLocked : ℕ
deriving DecidableEq

/-- An account; the numbers are `u64`. -/
structure Account where
  address : AccountAddress
  balance : ℕ
  nonce : ℕ
  storageDeposit : ℕ
  storageBytes : ℕ
  /-- Last epoch in which a transaction changed balance or nonce. -/
  lastTouchedEpoch : ℕ
  vesting : Option VestingLock
deriving DecidableEq

/-- The account an executor creates for an unknown address. -/
def Account.empty (addr : AccountAddress) : Account where
  address := addr
  balance := 0
  nonce := 0
  storageDeposit := 0
  storageBytes := 0
  lastTouchedEpoch := 0
  vesting := none

inductive DecayCurve
  | exponential (halfLife : ℕ)
  | linear (ratePerEpoch : ℕ)
  | stepped (thresholds : List (ℕ × ℕ))
  | conditional (base : DecayCurve) (graceEpochs : ℕ)
  | asymptotic (floor halfLife : ℕ)
  | custom (bytecode : Bytes)
deriving DecidableEq

inductive LadMode
  | linear
  | affine
  | decaying
deriving DecidableEq

inductive ObjectState
  | active
  | grace
  | ghost
  | resurrected
deriving DecidableEq

structure StateObject where
  id : ObjectId
  owner : AccountAddress
  energy : ℕ
  halfLife : ℕ
  createdAt : ℕ
  lastRefreshed : ℕ
  state : ObjectState
  graceEpoch : Option ℕ
  data : Bytes
  decayCurve : Option DecayCurve
  ladMode : Option LadMode
deriving DecidableEq

/-- What is left of an evaporated object. -/
structure GhostRecord where
  objectId : ObjectId
  owner : AccountAddress
  evaporatedAt : ℕ
  dataHash : Hash
  /-- Retained data; `none` for a compact ghost. -/
  originalData : Option Bytes
  mmrPosition : Option ℕ
  originalHalfLife : Option ℕ
deriving DecidableEq

/-- The object that is brought back. -/
def GhostRecord.revived (ghost : GhostRecord) (id : ObjectId) (energy halfLife epoch : ℕ)
    (data : Bytes) : StateObject where
  id := id
  owner := ghost.owner
  energy := energy
  halfLife := halfLife
  createdAt := ghost.evaporatedAt
  lastRefreshed := epoch
  state := .resurrected
  graceEpoch := none
  data := data
  decayCurve := none
  ladMode := none

/-- Accounts, objects and ghosts of a database. Records are stored under their own keys. -/
structure StateDb where
  accounts : AccountAddress → Option Account
  objects : ObjectId → Option StateObject
  ghosts : ObjectId → Option GhostRecord
  address_eq : ∀ {addr acct}, accounts addr = some acct → acct.address = addr
  id_eq : ∀ {id obj}, objects id = some obj → obj.id = id
  objectId_eq : ∀ {id ghost}, ghosts id = some ghost → ghost.objectId = id

def StateDb.empty : StateDb where
  accounts _ := none
  objects _ := none
  ghosts _ := none
  address_eq h := nomatch h
  id_eq h := nomatch h
  objectId_eq h := nomatch h

namespace StateDb

@[ext] lemma ext' {db db' : StateDb} (haccounts : db.accounts = db'.accounts)
    (hobjects : db.objects = db'.objects) (hghosts : db.ghosts = db'.ghosts) : db = db' := by
  cases db
  simp_all

variable (db : StateDb)

/-- Insert or replace an account. -/
def putAccount (acct : Account) : StateDb :=
  { db with
    accounts := Function.update db.accounts acct.address (some acct)
    address_eq := by
      intro addr acct' h
      by_cases haddr : addr = acct.address
      · subst haddr
        rw [update_self] at h
        exact Option.some.inj h ▸ rfl
      · rw [update_of_ne haddr] at h
        exact db.address_eq h }

/-- Change an account in place. -/
def modifyAccount (addr : AccountAddress) (f : Account → Account)
    (hf : ∀ acct, (f acct).address = acct.address) : StateDb :=
  { db with
    accounts := Function.update db.accounts addr ((db.accounts addr).map f)
    address_eq := by
      intro addr' acct' h
      by_cases haddr : addr' = addr
      · subst haddr
        rw [update_self] at h
        obtain ⟨acct, hacct, rfl⟩ := Option.map_eq_some_iff.mp h
        exact (hf acct).trans (db.address_eq hacct)
      · rw [update_of_ne haddr] at h
        exact db.address_eq h }

/-- Insert or replace an object. -/
def putObject (obj : StateObject) : StateDb :=
  { db with
    objects := Function.update db.objects obj.id (some obj)
    id_eq := by
      intro id obj' h
      by_cases hid : id = obj.id
      · subst hid
        rw [update_self] at h
        exact Option.some.inj h ▸ rfl
      · rw [update_of_ne hid] at h
        exact db.id_eq h }

/-- Change an object in place. -/
def modifyObject (id : ObjectId) (f : StateObject → StateObject)
    (hf : ∀ obj, (f obj).id = obj.id) : StateDb :=
  { db with
    objects := Function.update db.objects id ((db.objects id).map f)
    id_eq := by
      intro id' obj' h
      by_cases hid : id' = id
      · subst hid
        rw [update_self] at h
        obtain ⟨obj, hobj, rfl⟩ := Option.map_eq_some_iff.mp h
        exact (hf obj).trans (db.id_eq hobj)
      · rw [update_of_ne hid] at h
        exact db.id_eq h }

def removeGhost (id : ObjectId) : StateDb :=
  { db with
    ghosts := Function.update db.ghosts id none
    objectId_eq := by
      intro id' ghost h
      by_cases hid : id' = id
      · subst hid
        rw [update_self] at h
        cases h
      · rw [update_of_ne hid] at h
        exact db.objectId_eq h }

end StateDb

/-! ### Transactions -/

structure TransferTx where
  fromAddr : AccountAddress
  toAddr : AccountAddress
  amount : ℕ
  nonce : ℕ
deriving DecidableEq

structure RefreshTx where
  objectId : ObjectId
  energyDeposit : ℕ
deriving DecidableEq

structure CreateObjectTx where
  creator : AccountAddress
  objectId : ObjectId
  energy : ℕ
  halfLife : ℕ
  data : Bytes
  decayCurve : Option DecayCurve
  ladMode : Option LadMode
deriving DecidableEq

/-- The object that is created. -/
def CreateObjectTx.object (tx : CreateObjectTx) (epoch : ℕ) : StateObject where
  id := tx.objectId
  owner := tx.creator
  energy := tx.energy
  halfLife := tx.halfLife
  createdAt := epoch
  lastRefreshed := epoch
  state := .active
  graceEpoch := none
  data := tx.data
  decayCurve := tx.decayCurve
  ladMode := tx.ladMode

structure DeployContractTx where
  deployer : AccountAddress
  template : String
  /-- JSON text. -/
  initArgs : String
  energy : ℕ
  halfLife : ℕ
  rules : Option String
deriving DecidableEq

structure CallContractTx where
  caller : AccountAddress
  contractId : ℕ
  method : String
  args : String
  epoch : ℕ
deriving DecidableEq

structure DeployScriptTx where
  deployer : AccountAddress
  sourceCode : String
  energy : ℕ
  halfLife : ℕ
deriving DecidableEq

structure CallScriptTx where
  caller : AccountAddress
  contractId : ℕ
  method : String
  args : String
  epoch : ℕ
deriving DecidableEq

structure ValidatorStakeTx where
  validatorAddress : AccountAddress
  stakeAmount : ℕ
  validatorId : ℕ
  nonce : ℕ
  vrfPublicKey : Option Bytes := none
deriving DecidableEq

structure ValidatorExitTx where
  validatorAddress : AccountAddress
  validatorId : ℕ
  nonce : ℕ
deriving DecidableEq

structure ValidatorClaimStakeTx where
  validatorAddress : AccountAddress
  validatorId : ℕ
  nonce : ℕ
deriving DecidableEq

/-- A condition under which a deferred transaction fires. -/
inductive TemporalGuard
  | afterEpoch (epoch : ℕ)
  | beforeEpoch (epoch : ℕ)
  | energyBelow (id : ObjectId) (threshold : ℕ)
  | energyAbove (id : ObjectId) (threshold : ℕ)
  | objectEvaporated (id : ObjectId)
  | contractInPhase (contractId : ℕ) (phase : String)
deriving DecidableEq

structure DeferredTx where
  submitter : AccountAddress
  nonce : ℕ
  deposit : ℕ
  guards : List TemporalGuard
  innerTxBytes : Bytes
  gasLimit : ℕ
deriving DecidableEq

structure BlobTx where
  submitter : AccountAddress
  data : Bytes
  namespaceId : ℕ
  nonce : ℕ := 0
deriving DecidableEq

inductive GovernanceAction
  | createProposal (title paramKey paramValue : String) (votingEpochs : ℕ)
  | castVote (proposalId : ℕ) (vote : Bool)
deriving DecidableEq

structure GovernanceTx where
  action : GovernanceAction
  sender : AccountAddress
  nonce : ℕ
deriving DecidableEq

structure MultiSigTx where
  multisigAddress : AccountAddress
  threshold : UInt8
  signers : List AccountAddress
  innerTxBytes : Bytes
  signatures : List (AccountAddress × Bytes)
  nonce : ℕ
deriving DecidableEq

structure UserOpTx where
  sender : AccountAddress
  callData : Bytes
  paymaster : Option AccountAddress
  nonce : ℕ
  callGasLimit : ℕ
  paymasterNonce : Option ℕ
  paymasterSignature : Option Bytes
  paymasterPublicKey : Option Bytes
deriving DecidableEq

structure UpgradeContractTx where
  owner : AccountAddress
  contractId : ℕ
  newBytecode : Bytes
  newBytecodeHash : Hash
  nonce : ℕ
  adminSignature : Option Bytes
  adminPublicKey : Option Bytes
  endorserStakes : List ℕ
  requiredStake : ℕ
  governanceApproved : Bool
deriving DecidableEq

structure DelegateTx where
  delegator : AccountAddress
  validatorId : ℕ
  amount : ℕ
  nonce : ℕ
deriving DecidableEq

structure UndelegateTx where
  delegator : AccountAddress
  validatorId : ℕ
  amount : ℕ
  nonce : ℕ
deriving DecidableEq

structure ClaimDelegationTx where
  delegator : AccountAddress
  validatorId : ℕ
  nonce : ℕ
deriving DecidableEq

structure RotateValidatorKeyTx where
  validatorAddress : AccountAddress
  validatorId : ℕ
  newBlsPublicKey : Bytes
  blsPopOld : Bytes
  blsPopNew : Bytes
  effectiveEpoch : ℕ
  nonce : ℕ
deriving DecidableEq

structure RefundTx where
  attacker : AccountAddress
  victim : AccountAddress
  amount : ℕ
  sourceBlockHeight : ℕ
  sourceObservationIdx : ℕ
  settleBlockHeight : ℕ
deriving DecidableEq

structure DeployTemplateTx where
  deployer : AccountAddress
  templateClass : ℕ
  params : Bytes
  nonce : ℕ
  submittedAtEpoch : ℕ
deriving DecidableEq

/-- The fields of the transaction kinds that executors look at. -/
inductive TxBody
  | transfer (tx : TransferTx)
  | refresh (tx : RefreshTx)
  | createObject (tx : CreateObjectTx)
  | deployContract (tx : DeployContractTx)
  | callContract (tx : CallContractTx)
  | deployScript (tx : DeployScriptTx)
  | callScript (tx : CallScriptTx)
  | validatorStake (tx : ValidatorStakeTx)
  | validatorExit (tx : ValidatorExitTx)
  | validatorClaimStake (tx : ValidatorClaimStakeTx)
  | shield (fromAddr : AccountAddress)
  | unshield (toAddr : AccountAddress)
  | privateTransfer (inputNullifiers outputCommitments : List Hash)
  | deferred (tx : DeferredTx)
  | blob (tx : BlobTx)
  | governance (tx : GovernanceTx)
  | multiSig (tx : MultiSigTx)
  | userOp (tx : UserOpTx)
  | upgradeContract (tx : UpgradeContractTx)
  | delegate (tx : DelegateTx)
  | undelegate (tx : UndelegateTx)
  | rotateValidatorKey (tx : RotateValidatorKeyTx)
  | claimDelegation (tx : ClaimDelegationTx)
  | refund (tx : RefundTx)
  | deployTemplate (tx : DeployTemplateTx)
deriving DecidableEq

/-- Gas of a transaction. The executors differ in the arithmetic of `perUnit base unit n`, the gas
of `n` units, and in the amounts for some of the kinds. -/
def TxBody.gas (perUnit : ℕ → ℕ → ℕ → ℕ) (deployScript : DeployScriptTx → ℕ)
    (governance multiSig refund : ℕ) : TxBody → ℕ
  | .transfer _ => 21000
  | .createObject tx => perUnit 50000 200 tx.data.length
  | .refresh _ => 30000
  | .deployContract _ => 100000
  | .callContract _ => 40000
  | .deployScript tx => deployScript tx
  | .callScript _ => 50000
  | .validatorStake _ => 50000
  | .validatorExit _ => 30000
  | .validatorClaimStake _ => 30000
  | .shield _ => 60000
  | .unshield _ => 80000
  | .privateTransfer ins outs =>
    satAdd (satAdd 100000 (satMul 20000 ins.length)) (satMul 15000 outs.length)
  | .deferred tx => perUnit 75000 5000 tx.guards.length
  | .blob tx => perUnit 50000 200 tx.data.length
  | .governance _ => governance
  | .multiSig _ => multiSig
  | .userOp tx => satAdd 30000 (tx.callData.length * 16 % 2 ^ 64)
  | .upgradeContract tx => satAdd 100000 (tx.newBytecode.length * 200 % 2 ^ 64)
  | .delegate _ => 40000
  | .undelegate _ => 40000
  | .rotateValidatorKey _ => 80000
  | .claimDelegation _ => 30000
  | .refund _ => refund
  | .deployTemplate tx => satAdd 50000 (satMul 50 tx.params.length)

def saturatingGas (base unit n : ℕ) : ℕ := satAdd base (satMul unit n)

/-- Why a kind is not executed outside the serial phase. -/
def TxBody.serialMsg : TxBody → String
  | .validatorClaimStake _ => "validator claim stake executes in serial phase"
  | .governance _ => "governance txs execute in serial phase"
  | .multiSig _ => "multi-sig txs execute in serial phase"
  | .userOp _ => "user-op txs execute in serial phase"
  | .upgradeContract _ => "upgrade txs execute in serial phase"
  | .delegate _ | .undelegate _ | .claimDelegation _ => "delegation txs execute in serial phase"
  | .rotateValidatorKey _ => "validator key rotation executes in serial phase"
  | .refund _ => "refund txs execute in serial phase"
  | .deployTemplate _ => "DeployTemplate txs execute in serial phase"
  | _ => "contract/script/privacy/deferred txs execute in serial phase"

structure Transaction where
  body : TxBody
  signatureField : Option Bytes
  publicKeyField : Option Bytes
  /-- The other fields, which only the signed bytes cover. -/
  rest : Bytes
deriving DecidableEq

namespace Transaction

variable (tx : Transaction)

/-- Account responsible for the fees. -/
def sender : Option AccountAddress :=
  match tx.body with
  | .transfer tx => some tx.fromAddr
  | .createObject tx => some tx.creator
  | .deployContract tx => some tx.deployer
  | .callContract tx => some tx.caller
  | .deployScript tx => some tx.deployer
  | .callScript tx => some tx.caller
  | .refresh _ => none
  | .validatorStake tx => some tx.validatorAddress
  | .validatorExit tx => some tx.validatorAddress
  | .validatorClaimStake tx => some tx.validatorAddress
  | .shield fromAddr => some fromAddr
  | .unshield _ => none
  | .privateTransfer .. => none
  | .deferred tx => some tx.submitter
  | .blob tx => some tx.submitter
  | .governance tx => some tx.sender
  | .multiSig tx => some tx.multisigAddress
  | .userOp tx => some (tx.paymaster.getD tx.sender)
  | .upgradeContract tx => some tx.owner
  | .delegate tx => some tx.delegator
  | .undelegate tx => some tx.delegator
  | .rotateValidatorKey tx => some tx.validatorAddress
  | .claimDelegation tx => some tx.delegator
  | .refund tx => some tx.attacker
  | .deployTemplate tx => some tx.deployer

/-- Kinds that carry no signature. -/
def unsigned : Bool :=
  match tx.body with
  | .unshield _ | .privateTransfer .. | .multiSig _ | .refund _ => true
  | _ => false

def signature : Option Bytes := if tx.unsigned then none else tx.signatureField

def publicKey : Option Bytes := if tx.unsigned then none else tx.publicKeyField

end Transaction

/-! ### Errors and outcomes -/

/-- Lower-case hexadecimal digits of a byte string. -/
def hexEncode (bs : Bytes) : String :=
  String.ofList (bs.flatMap fun b => [Nat.digitChar (b.toNat / 16), Nat.digitChar (b.toNat % 16)])

inductive ExecutionError
  | insufficientBalance (account : String) (available required : ℕ)
  | invalidNonce (expected got : ℕ)
  | objectAlreadyExists (id : String)
  | objectNotFound (id : String)
  | selfTransfer
  | zeroAmount
  | refreshFailed (reason : String)
  | invalidSignature
  | missingSignature
  | insufficientGas (account : String) (available required : ℕ)
  | contractError (reason : String)
  | scriptError (reason : String)
  | callDepthExceeded (max : ℕ)
deriving DecidableEq

/-- The error as users see it. -/
def ExecutionError.toString : ExecutionError → String
  | .insufficientBalance account available required =>
    s!"insufficient balance: account {account} has {available}, needs {required}"
  | .invalidNonce expected got  => s!"invalid nonce: expected {expected}, got {got}"
  | .objectAlreadyExists id     => s!"object already exists: {id}"
  | .objectNotFound id          => s!"object not found: {id}"
  | .selfTransfer               => "self-transfer not allowed"
  | .zeroAmount                 => "zero amount transfer"
  | .refreshFailed reason       => s!"refresh failed: {reason}"
  | .invalidSignature           => "invalid signature"
  | .missingSignature           => "missing signature"
  | .insufficientGas account available required =>
    s!"insufficient balance for gas: account {account} has {available}, needs {required} for fees"
  | .contractError reason       => s!"contract error: {reason}"
  | .scriptError reason         => s!"script error: {reason}"
  | .callDepthExceeded max      => s!"call depth exceeded: max {max}"

inductive RefreshError
  | objectNotFound (id : String)
  | zeroEnergy
  | dataNotAvailable (id : String)

def RefreshError.toString : RefreshError → String
  | .objectNotFound id   => s!"object {id} not found in active state or ghost records"
  | .zeroEnergy          => "energy deposit must be greater than zero"
  | .dataNotAvailable id =>
    s!"ghost {id} has no retained data — supply original data for resurrection"

/-- What the block result reports about a transaction. -/
structure TxOutcome where
  txHash : Hash
  success : Bool
  error : Option String
  gasUsed : ℕ
deriving DecidableEq

/-! ### Signatures and fees -/

/-- Operations outside the executors. -/
structure ExecEnv where
  signableBytes : Transaction → Bytes
  blake3 : Bytes → Hash
  /-- `hybridVerify msg sig pk` -/
  hybridVerify : Bytes → Bytes → Bytes → Bool
  /-- A fifth of a deposit, rounded in floating point. -/
  refreshRatio : ℕ → ℕ

/-- Signatures always verify. -/
def plainEnv : ExecEnv where
  signableBytes _ := []
  blake3 _ := Hash.zero
  hybridVerify _ _ _ := true
  refreshRatio deposit := deposit / 5

/-- The address that repeats a byte. -/
def addressOf (b : UInt8) : AccountAddress := List.Vector.replicate 32 b

def Transaction.txHash (env : ExecEnv) (tx : Transaction) : Hash :=
  env.blake3 (env.signableBytes tx)

def asciiBytes (text : String) : Bytes := text.toList.map fun c => UInt8.ofNat c.toNat

variable (env : ExecEnv)

/-- The address of a public key. -/
def addressFromPubkey (pk : Bytes) : AccountAddress :=
  env.blake3 (asciiBytes "evaporchain:address:v1\x00" ++ pk)

/-- The signed bytes, after the length and the bytes of the chain identifier. -/
def Transaction.signingMessage (tx : Transaction) (chainId : Bytes) : Bytes :=
  leBytes 4 chainId.length ++ chainId ++ env.signableBytes tx

def verifyTxSignature (verify : Bool) (tx : Transaction) (chainId : Bytes) :
    Except ExecutionError Unit :=
  if !verify then .ok ()
  else match tx.body with
    | .unshield _ | .privateTransfer .. => .ok ()
    | _ =>
      match tx.signature, tx.publicKey with
      | some sig, some pk =>
        if env.hybridVerify (tx.signingMessage env chainId) sig pk then .ok ()
        else .error .invalidSignature
      | _, _ => .error .missingSignature

/-- The fee controller; only its present base fee matters within a block. -/
structure PidFeeController where
  baseFee : ℕ
deriving DecidableEq

namespace PidFeeController

def computeGasFee (fc : PidFeeController) (gasUsed priorityTip : ℕ) : ℕ :=
  satAdd (satMul fc.baseFee gasUsed) priorityTip

def computeCreationDeposit (_ : PidFeeController) (dataSizeBytes : ℕ) : ℕ :=
  max (satMul 100 dataSizeBytes) 1000

def computeRefreshFee (_ : PidFeeController) (env : ExecEnv) (energyDeposited : ℕ) : ℕ :=
  max (env.refreshRatio energyDeposited) 100

/-- Fee on top of the gas fee. -/
def extraFee (fc : PidFeeController) (env : ExecEnv) (tx : Transaction) : ℕ :=
  match tx.body with
  | .createObject tx => fc.computeCreationDeposit tx.data.length
  | .refresh tx => fc.computeRefreshFee env tx.energyDeposit
  | _ => 0

end PidFeeController

/-- Deposit locked for each object created. -/
def minStorageDeposit : ℕ := 1000

def maxBlobSize : ℕ := 128 * 1024

def checkBlob (blob : BlobTx) : Except ExecutionError Unit :=
  let size := blob.data.length
  if size = 0 then .error (.contractError "blob data cannot be empty")
  else if maxBlobSize < size then
    .error (.contractError s!"blob size {size} exceeds limit {maxBlobSize}")
  else if blob.namespaceId = 0 then .error (.contractError "reserved namespace_id 0")
  else .ok ()

/-- Executor settings that matter for single transactions. -/
structure ExecConfig where
  verifySignatures : Bool
  feeController : Option PidFeeController
  chainId : Bytes

end EvaporChain
