import EvaporChain.Execution.Handlers
import EvaporChain.Execution.Temporal

/-!
# Executors and their engines

The state an executor keeps beside the database, and the handlers of the transactions that reach
the contract engine, the script engine or the queue of deferred transactions. The engines
themselves are parameters.
-/

namespace EvaporChain

open Core

/-! ### Engines -/

/-- The contract engine. A call that fails may still have changed the contract. -/
structure ContractEngine (C : Type) where
  deploy : C → DeployContractTx → ℕ → Except String C
  /-- `call engine contractId method args caller epoch` -/
  call : C → ℕ → String → String → AccountAddress → ℕ → Except String Unit × C
  /-- Name of the phase a contract is in. -/
  phaseOf : C → ℕ → Option String
  tick : C → ℕ → C

/-- Who asks for the upgrade of a script. -/
inductive UpgradeAuth
  | admin (addr : AccountAddress)
  | governance

/-- The script engine; an operation that fails changes nothing. -/
structure ScriptEngine (S : Type) where
  deploy : S → DeployScriptTx → ℕ → Except String S
  /-- `call engine tx vmGas` -/
  call : S → CallScriptTx → ℕ → Except String S
  /-- The administrator of a script that exists; there is none for a frozen one. -/
  admin : S → ℕ → Option (Option AccountAddress)
  upgrade : S → ℕ → String → UpgradeAuth → Except String S
  tick : S → ℕ → S

/-- Operations outside the serial executors. -/
structure ChainEnv (C S : Type) extends ExecEnv where
  contracts : ContractEngine C
  scripts : ScriptEngine S
  /-- What the JSON parser says against a text. -/
  jsonError : String → Option String
  rulesError : String → Option String
  scriptArgsError : String → Option String
  /-- What the totality gate says against a script. -/
  totalityError : String → Option String
  /-- What the pipeline of app templates says against a request. -/
  templateError : DeployTemplateTx → Option String
  /-- `serde_json::from_slice` -/
  decodeTransaction : Bytes → Except String Transaction
  /-- `mlDsaVerify msg sig pk` -/
  mlDsaVerify : Bytes → Bytes → Bytes → Bool
  verifyProofOfPossession : Bytes → Bytes → Bool
  validUtilization : String → Except String Unit
  /-- `computeEnergy curve energy elapsed lastRefreshed` -/
  computeEnergy : DecayCurve → ℕ → ℕ → ℕ → ℕ
  /-- `demurrageOwed balance anchor epoch` -/
  demurrageOwed : ℕ → ℕ → ℕ → ℕ

/-! ### Blocks -/

structure ExecBlock where
  number : ℕ
  epoch : ℕ
  transactions : List Transaction
  producerId : Option ℕ
  /-- Signers of the commit certificate, if there is one. -/
  commitSigners : List ℕ
  submitEpochHints : List (Option ℕ)

/-- The orders in which the database lists its keys. -/
structure Scan where
  objectIds : List ObjectId
  accountAddresses : List AccountAddress

structure ExecutorConfig extends ExecConfig where
  gracePeriod : ℕ

structure ValidatorKeyRotation where
  validatorId : ℕ
  newBlsPublicKey : Bytes
  blsPopOld : Bytes
  newBlsPop : Bytes
  prevKeyExpiryEpoch : ℕ
deriving DecidableEq

structure BlockExecutionResult where
  gasUsed : ℕ
  baseFee : ℕ
  totalFees : ℕ
  validatorKeyRotations : List ValidatorKeyRotation
  txOutcomes : List TxOutcome

/-! ### Executor state -/

/-- Credits by namespace. -/
abbrev RefreshPool := Dict Bytes ℕ

def RefreshPool.accrue (pool : RefreshPool) (ns : Bytes) (amount : ℕ) : RefreshPool :=
  if amount = 0 then pool else pool.insert ns (satAdd ((pool.lookup ns).getD 0) amount)

def systemRefreshNamespace : Bytes := asciiBytes "evaporchain-system-refresh"

structure FeeDistribution where
  burned : ℕ
  toProducer : ℕ
  toStakers : ℕ
deriving DecidableEq

/-- Emission and fee policy. Roundings in floating point are functions of their own. -/
structure Tokenomics where
  baseReward : ℕ
  rewardHalfLife : ℕ
  maxSupplyCap : Option ℕ
  /-- Reward of a rich emission schedule, at an epoch and an amount minted. -/
  emission : Option (ℕ → ℕ → ℕ)
  /-- `total * fee_burn_rate`, rounded. -/
  burnShare : ℕ → ℕ
  /-- `remaining * staker_fee_share`, rounded. -/
  stakerShare : ℕ → ℕ
  /-- `pool * validator_commission_default`, rounded. -/
  commissionShare : ℕ → ℕ
  /-- Reward per block that the target yield allows, by the total stake; if there is a target. -/
  apyBudget : ℕ → Option ℕ

structure RewardAccumulator where
  tokenomics : Tokenomics
  totalMinted : ℕ
  totalBurned : ℕ
  totalToProducers : ℕ
  totalToStakers : ℕ
  pendingStakerRewards : ℕ

structure ChainState (C S : Type) where
  db : Ledger
  contractEngine : C
  scriptEngine : S
  callDepth : ℕ
  deferredQueue : Temporal.DeferredQueue
  decayWatchers : List Temporal.EnergyWatcher
  /-- Addresses and objects with a tombstone. -/
  eulogyTrie : List Hash
  refreshPool : RefreshPool
  rewardAccumulator : Option RewardAccumulator
  mmrSize : ℕ
  blockGasLimit : ℕ

namespace Simple

variable {C S : Type} (env : ChainEnv C S) (cfg : ExecConfig) (epoch : ℕ)

/-- Run a handler that needs only the database. -/
def onLedger (f : Ledger → Handled Ledger) (st : ChainState C S) : Handled (ChainState C S) :=
  let (result, db) := f st.db
  (result, { st with db := db })

/-! ### Contracts and scripts -/

def contractTemplates : List String :=
  ["DecayingToken", "MortalNFT", "ThermodynamicEscrow", "DecayingAuction", "StakingPool",
    "DAOVote", "TemporalContract"]

/-- The deposit is locked before the engine is asked. -/
def executeDeployContract (tx : DeployContractTx) (st : ChainState C S) :
    Handled (ChainState C S) :=
  let template := tx.template
  if template ∉ contractTemplates then
    (.error (.contractError s!"unknown template: {template}"), st)
  else match env.jsonError tx.initArgs, tx.rules.bind env.rulesError with
    | some e, _    => (.error (.contractError s!"invalid init_args JSON: {e}"), st)
    | none, some e => (.error (.contractError s!"invalid rules JSON: {e}"), st)
    | none, none =>
      let bytes := satAdd (satAdd 256 tx.initArgs.utf8ByteSize)
        ((tx.rules.map String.utf8ByteSize).getD 0)
      match chargeDeposit epoch tx.deployer bytes st.db with
      | (.error e, db) => (.error e, { st with db := db })
      | (.ok (), db) =>
        match env.contracts.deploy st.contractEngine tx epoch with
        | .error e => (.error (.contractError e), { st with db := db })
        | .ok engine => (.ok (), { st with db := db, contractEngine := engine })

def maxCallDepth : ℕ := 64

/-- Longest JSON text of arguments, in bytes. -/
def maxArgsBytes : ℕ := 1000000

/-- One call deeper and back. -/
def leaveCall (depth : ℕ) : ℕ := satAdd depth 1 - 1

def executeCallContract (tx : CallContractTx) (st : ChainState C S) : Handled (ChainState C S) :=
  if maxCallDepth ≤ st.callDepth then (.error (.callDepthExceeded maxCallDepth), st)
  else if maxArgsBytes < tx.args.utf8ByteSize then
    (.error (.contractError "args JSON too large (max 1 MB)"), st)
  else match env.jsonError tx.args with
    | some e => (.error (.contractError s!"invalid args JSON: {e}"), st)
    | none =>
      let (result, engine) := env.contracts.call st.contractEngine tx.contractId tx.method
        tx.args tx.caller tx.epoch
      (result.mapError .contractError,
        { st with contractEngine := engine, callDepth := leaveCall st.callDepth })

/-- The deposit is locked before the script is looked at. -/
def executeDeployScript (tx : DeployScriptTx) (st : ChainState C S) : Handled (ChainState C S) :=
  match chargeDeposit epoch tx.deployer (satAdd 128 tx.sourceCode.utf8ByteSize) st.db with
  | (.error e, db) => (.error e, { st with db := db })
  | (.ok (), db) =>
    let gate :=
      if db.governanceParams.lookup "script_vm_mode" = some "total" then
        env.totalityError tx.sourceCode
      else none
    match gate with
    | some e => (.error (.scriptError e), { st with db := db })
    | none =>
      match env.scripts.deploy st.scriptEngine tx epoch with
      | .error e => (.error (.scriptError e), { st with db := db })
      | .ok engine => (.ok (), { st with db := db, scriptEngine := engine })

/-- What a call may use, in steps of the script machine. -/
def scriptVmGas : ℕ := 50000 * 20

def executeCallScript (tx : CallScriptTx) (st : ChainState C S) : Handled (ChainState C S) :=
  if maxCallDepth ≤ st.callDepth then (.error (.callDepthExceeded maxCallDepth), st)
  else if maxArgsBytes < tx.args.utf8ByteSize then
    (.error (.scriptError "args JSON too large (max 1 MB)"), st)
  else
    let argsError :=
      if tx.args = "" ∨ tx.args = "[]" then none else env.scriptArgsError tx.args
    match argsError with
    | some e => (.error (.scriptError s!"invalid args JSON: {e}"), st)
    | none =>
      match env.scripts.call st.scriptEngine tx scriptVmGas with
      | .error e =>
        (.error (.scriptError e), { st with callDepth := leaveCall st.callDepth })
      | .ok engine =>
        (.ok (), { st with scriptEngine := engine, callDepth := leaveCall st.callDepth })

/-- A successful call refreshes the anchor of the caller. -/
def stampCaller (caller : AccountAddress) (r : Handled (ChainState C S)) :
    Handled (ChainState C S) :=
  match r with
  | (.ok (), st) =>
    (.ok (), { st with
      db := st.db.adjustAccount caller fun acct => { acct with lastTouchedEpoch := epoch } })
  | (.error e, st) => (.error e, st)

/-- The request is checked; nothing is deployed. -/
def executeDeployTemplate (tx : DeployTemplateTx) (st : ChainState C S) :
    Handled (ChainState C S) :=
  match env.templateError tx with
  | some e => (.error (.contractError e), st)
  | none => stampCaller epoch tx.deployer (.ok (), st)

/-! ### Sponsored operations -/

def gasUserOp : ℕ := 30000

variable (tx : UserOpTx) (paymaster : AccountAddress)

def paymasterSponsorshipPayload (paymasterNonce : ℕ) : Bytes :=
  asciiBytes "evaporchain:paymaster_sponsorship:v1\x00" ++ leBytes 4 cfg.chainId.length ++
    cfg.chainId ++ tx.sender.toList ++ leBytes 8 tx.nonce ++ paymaster.toList ++
    leBytes 8 paymasterNonce ++ leBytes 8 tx.callGasLimit ++ (env.blake3 tx.callData).toList

/-- The consent of a sponsor; the result is the nonce it was given for. -/
def checkSponsorship : Except ExecutionError ℕ :=
  match tx.paymasterNonce, tx.paymasterSignature, tx.paymasterPublicKey with
  | none, _, _ =>
    .error (.contractError "UserOpTx with paymaster must include paymaster_nonce (replay protection — see audit §3 / 2026-05-03 closure)")
  | some _, none, _ =>
    .error (.contractError "UserOpTx with paymaster must include paymaster_signature (sponsorship-consent — closes drain-by-forged-paymaster)")
  | some _, some _, none =>
    .error (.contractError "UserOpTx with paymaster must include paymaster_public_key")
  | some nonce, some sig, some pk =>
    let derived := addressFromPubkey env.toExecEnv pk
    if derived ≠ paymaster then
      let got := hexEncode derived.toList
      let expected := hexEncode paymaster.toList
      .error (.contractError s!"UserOpTx: paymaster_public_key does not derive to paymaster address (derived {got} vs paymaster {expected})")
    else if !env.hybridVerify (paymasterSponsorshipPayload env cfg tx paymaster nonce) sig pk then
      .error (.contractError "UserOpTx: paymaster_signature verification failed")
    else .ok nonce

/-- Check sender and sponsor without changing them. The result is the sponsor with its cost. -/
def checkUserOp (db : Ledger) : Except ExecutionError (Option (AccountAddress × ℕ)) × Ledger :=
  let senderNonce := (db.account tx.sender).nonce
  let db := db.touchAccount tx.sender
  if senderNonce ≠ tx.nonce then (.error (.invalidNonce senderNonce tx.nonce), db)
  else match tx.paymaster with
    | none => (.ok none, db)
    | some paymaster =>
      match checkSponsorship env cfg tx paymaster with
      | .error e => (.error e, db)
      | .ok nonce =>
        let acct := db.account paymaster
        let db := db.touchAccount paymaster
        let cost := satAdd tx.callGasLimit gasUserOp
        if acct.nonce ≠ nonce then (.error (.invalidNonce acct.nonce nonce), db)
        else if acct.balance < cost then
          (.error (.insufficientGas (hexEncode paymaster.toList) acct.balance cost), db)
        else (.ok (some (paymaster, cost)), db)

/-- Use up the nonces of sender and sponsor, and charge the sponsor. -/
def applyUserOp (sponsor : Option (AccountAddress × ℕ)) (db : Ledger) : Ledger :=
  let db := db.updateAccount tx.sender (·.saturateNonce epoch)
  match sponsor with
  | none => db
  | some (paymaster, cost) =>
    db.updateAccount paymaster fun acct => (acct.debit cost epoch).saturateNonce epoch

def impersonation (what role : String) (got sender : AccountAddress) : ExecutionError :=
  let gotName := hexEncode got.toList
  let senderName := hexEncode sender.toList
  .contractError s!"UserOp inner {what}: {role} {gotName} does not match outer UserOp sender {senderName} (no-impersonation rule)"

/-- A transfer inside an operation has no nonce of its own. -/
def executeInnerTransfer (tx : TransferTx) (userOpSender : AccountAddress) (db : Ledger) :
    Handled Ledger :=
  if tx.fromAddr ≠ userOpSender then
    (.error (impersonation "Transfer" "from-address" tx.fromAddr userOpSender), db)
  else if tx.fromAddr = tx.toAddr then (.error .selfTransfer, db)
  else if tx.amount = 0 then (.error .zeroAmount, db)
  else
    let available := (db.account tx.fromAddr).transferableBalance epoch
    if available < tx.amount then
      (.error (.insufficientBalance (hexEncode tx.fromAddr.toList) available tx.amount),
        db.touchAccount tx.fromAddr)
    else
      (.ok (), (db.updateAccount tx.fromAddr (·.debit tx.amount epoch)).updateAccount tx.toAddr
        (·.credit tx.amount epoch))

/-- Position of a kind in the enumeration of transactions that cannot be sponsored. -/
def unsponsorable : TxBody → Option ℕ
  | .shield _ => some 10
  | .unshield _ => some 11
  | .privateTransfer .. => some 12
  | .deferred _ => some 13
  | .blob _ => some 14
  | .multiSig _ => some 16
  | .userOp _ => some 17
  | .refund _ => some 23
  | _ => none

def executeInner (sender : AccountAddress) (inner : Transaction) (st : ChainState C S) :
    Handled (ChainState C S) :=
  match inner.body with
  | .transfer tx => onLedger (executeInnerTransfer epoch tx sender) st
  | .callScript tx =>
    if tx.caller ≠ sender then (.error (impersonation "CallScript" "caller" tx.caller sender), st)
    else executeCallScript env tx st
  | .callContract tx =>
    if tx.caller ≠ sender then
      (.error (impersonation "CallContract" "caller" tx.caller sender), st)
    else executeCallContract env tx st
  | body =>
    match unsponsorable body with
    | some k =>
      (.error (.contractError
        s!"UserOp call_data: inner variant not sponsorable (got Discriminant({k}))"), st)
    | none =>
      (.error (.contractError "UserOp call_data: this inner variant is not whitelisted in V1. Whitelisted: Transfer, CallScript, CallContract."), st)

def executeUserOp (tx : UserOpTx) (st : ChainState C S) : Handled (ChainState C S) :=
  match checkUserOp env cfg tx st.db with
  | (.error e, db) => (.error e, { st with db := db })
  | (.ok sponsor, db) =>
    let st := { st with db := applyUserOp epoch tx sponsor db }
    if tx.callData = [] then (.ok (), st)
    else match env.decodeTransaction tx.callData with
      | .error e =>
        (.error (.contractError s!"UserOp call_data: failed to decode inner Transaction: {e}"), st)
      | .ok inner => executeInner env epoch tx.sender inner st

/-! ### Upgrades -/

def upgradeError (reason : String) : ExecutionError :=
  .contractError s!"UpgradeContract: {reason}"

variable (tx : UpgradeContractTx)

/-- What the administrator of a script signs. -/
def upgradePayload : Bytes :=
  let contractId := tx.contractId
  let hash := hexEncode tx.newBytecodeHash.toList
  let nonce := tx.nonce
  asciiBytes s!"\x7b\"type\":\"upgrade_contract\",\"contract_id\":{contractId},\"new_bytecode_hash_hex\":\"{hash}\",\"nonce\":{nonce}\x7d"

/-- An administrator signs; otherwise the stakes named in the transaction have to suffice. -/
def upgradeAuth (contractAdmin : Option AccountAddress) : Except ExecutionError UpgradeAuth :=
  match tx.adminSignature with
  | some sig =>
    match tx.adminPublicKey, contractAdmin with
    | none, _ =>
      .error (upgradeError "admin_signature present but admin_public_key missing")
    | some _, none =>
      let contractId := tx.contractId
      .error (upgradeError s!"contract {contractId} is frozen (admin = None) — admin path unavailable, use governance quorum")
    | some pk, some admin =>
      let derived := addressFromPubkey env.toExecEnv pk
      if derived ≠ admin then
        let got := hexEncode derived.toList
        let expected := hexEncode admin.toList
        .error (upgradeError
          s!"admin_public_key does not match contract.admin (derived {got} vs admin {expected})")
      else if !env.mlDsaVerify (upgradePayload tx) sig pk then
        .error (upgradeError "admin_signature verification failed")
      else .ok (.admin admin)
  | none =>
    let total := satSum tx.endorserStakes
    let required := tx.requiredStake
    if total < required then
      .error (upgradeError
        s!"governance quorum not met — endorser_stakes sum {total} < required_stake {required}")
    else if required = 0 then
      .error (upgradeError "governance path requires required_stake > 0")
    else .ok .governance

/-- The checks after the nonce was used; the result is the engine with the new code. -/
def upgradeScript (engine : S) : Except ExecutionError S :=
  let computed := env.blake3 tx.newBytecode
  let contractId := tx.contractId
  if computed ≠ tx.newBytecodeHash then
    let got := hexEncode computed.toList
    let expected := hexEncode tx.newBytecodeHash.toList
    .error (upgradeError s!"new_bytecode_hash mismatch — computed {got} vs supplied {expected}")
  else match env.scripts.admin engine contractId with
    | none               => .error (upgradeError s!"contract {contractId} not found")
    | some contractAdmin =>
      match upgradeAuth env tx contractAdmin with
      | .error e => .error e
      | .ok auth =>
        match String.fromUTF8? (ByteArray.mk tx.newBytecode.toArray) with
        | none =>
          .error (upgradeError "new_bytecode is not valid UTF-8 EvaporScript source")
        | some source => (env.scripts.upgrade engine contractId source auth).mapError .contractError

def executeUpgradeContract (st : ChainState C S) : Handled (ChainState C S) :=
  let sender := st.db.account tx.owner
  if sender.nonce ≠ tx.nonce then
    (.error (.invalidNonce sender.nonce tx.nonce), { st with db := st.db.touchAccount tx.owner })
  else
    let st := { st with db := st.db.updateAccount tx.owner (·.saturateNonce epoch) }
    match upgradeScript env tx st.scriptEngine with
    | .error e => (.error e, st)
    | .ok engine => (.ok (), { st with scriptEngine := engine })

/-! ### Dispatch -/

def shieldedTxDisabledMsg : String :=
  "shielded transactions are disabled in v1 (PRIV-001/002: no ZK proof system)"

def executeDeferred (tx : DeferredTx) (st : ChainState C S) : Handled (ChainState C S) :=
  match st.deferredQueue.submit tx with
  | .error e => (.error (.contractError e.toString), st)
  | .ok q => (.ok (), { st with deferredQueue := q })

/-- Execute a transaction whose fee was paid. -/
def dispatch (tx : Transaction) (st : ChainState C S) : Handled (ChainState C S) :=
  match tx.body with
  | .transfer tx => onLedger (executeTransfer epoch tx) st
  | .createObject tx => onLedger (executeCreateObject epoch tx) st
  | .refresh refresh =>
    onLedger (executeRefresh epoch (tx.publicKey.map (addressFromPubkey env.toExecEnv)) refresh) st
  | .deployContract tx => executeDeployContract env epoch tx st
  | .callContract tx => stampCaller epoch tx.caller (executeCallContract env tx st)
  | .deployScript tx => executeDeployScript env epoch tx st
  | .callScript tx => stampCaller epoch tx.caller (executeCallScript env tx st)
  | .validatorStake tx => onLedger (executeValidatorStake epoch tx) st
  | .validatorExit tx => onLedger (executeValidatorExit epoch tx) st
  | .validatorClaimStake tx => onLedger (executeValidatorClaimStake epoch tx) st
  | .shield _ | .unshield _ | .privateTransfer .. =>
    (.error (.contractError shieldedTxDisabledMsg), st)
  | .deferred tx => executeDeferred tx st
  | .blob tx => (checkBlob tx, st)
  | .governance tx => onLedger (executeGovernance epoch env.validUtilization tx) st
  | .multiSig tx => onLedger (executeMultisig epoch tx) st
  | .userOp tx => executeUserOp env cfg epoch tx st
  | .upgradeContract tx => executeUpgradeContract env epoch tx st
  | .delegate tx => onLedger (executeDelegate epoch tx) st
  | .undelegate tx => onLedger (executeUndelegate epoch tx) st
  | .rotateValidatorKey tx =>
    onLedger (executeRotateValidatorKey epoch env.verifyProofOfPossession tx) st
  | .claimDelegation tx => onLedger (executeClaimDelegation epoch tx) st
  | .refund tx => onLedger (executeRefund epoch tx) st
  | .deployTemplate tx => executeDeployTemplate env epoch tx st

end Simple

end EvaporChain
