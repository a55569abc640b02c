import EvaporChain.Core.Run
import EvaporChain.Execution.Phases

/-!
# The serial executor

Execution of a block in the order of its transactions: each pays its fee, is dispatched and, if it
fails, gets the balance and the nonce of its sender back. The end of the block follows: evaporation,
ticks, watchers, deferred transactions, rewards, rent and vesting.
-/

namespace EvaporChain

open Core

namespace Simple

variable {C S : Type} (env : ChainEnv C S)

/-! ### Before the transactions -/

/-- Take the block gas limit from the governance parameters. -/
def applyGovernanceParams (st : ChainState C S) : ChainState C S :=
  match (st.db.governanceParams.lookup "block_gas_limit").bind parseU64 with
  | some limit => { st with blockGasLimit := limit }
  | none => st

/-- Decide the proposals whose vote is over, then activate those whose timelock is. -/
def finalizeExpiredProposals (epoch : ℕ) (db : Ledger) : Ledger :=
  let expired := (db.proposals.entries.map (·.2)).filter fun p =>
    p.status = .active ∧ p.endEpoch < epoch
  let db := expired.foldl (fun db p =>
    db.putProposal { p with status := decideProposalOutcome p }) db
  let due := (db.proposals.entries.map (·.2)).filter fun p =>
    p.status = .passed ∧ satAdd p.endEpoch governanceTimelockEpochs ≤ epoch
  due.foldl (fun db p =>
    { db with governanceParams := db.governanceParams.insert p.paramKey p.paramValue }.putProposal
      { p with status := .executed }) db

/-! ### Transactions -/

/-- A signature binds its key to the sender; that of an operation to the user. -/
def verifyTxSignature (cfg : ExecConfig) (tx : Transaction) : Except ExecutionError Unit :=
  match EvaporChain.verifyTxSignature env.toExecEnv cfg.verifySignatures tx cfg.chainId with
  | .error e => .error e
  | .ok () =>
    let binding :=
      match tx.body with
      | .multiSig _ | .unshield _ | .privateTransfer .. => none
      | .userOp op => some op.sender
      | _ => tx.sender
    match cfg.verifySignatures, binding, tx.publicKey with
    | true, some claimed, some pk =>
      if addressFromPubkey env.toExecEnv pk ≠ claimed then .error .invalidSignature else .ok ()
    | _, _, _ => .ok ()

/-- Gas of a transaction, in saturating arithmetic where the code has it. -/
def estimateGas (tx : Transaction) : ℕ :=
  tx.body.gas saturatingGas (fun tx => saturatingGas 150000 200 tx.sourceCode.utf8ByteSize)
    25000 50000 5000

/-- Fee of a transaction, in unchecked `u64` arithmetic. -/
def txFee (cfg : ExecConfig) (tx : Transaction) : ℕ :=
  match cfg.feeController with
  | none => 0
  | some fc =>
    (fc.computeGasFee (estimateGas tx) 0 + fc.extraFee env.toExecEnv tx) % 2 ^ 64

/-- Charge the sender, if there are fees and somebody to charge; or say why it cannot pay. -/
def chargeFee (cfg : ExecConfig) (epoch fee : ℕ) (tx : Transaction) (db : Ledger) :
    Except String Unit × Ledger :=
  match cfg.feeController, tx.sender with
  | some _, some addr =>
    let balance := (db.account addr).balance
    if balance < fee then
      (.error s!"insufficient balance for gas: {balance}/{fee}", db.touchAccount addr)
    else (.ok (), db.updateAccount addr (·.debit fee epoch))
  | _, _ => (.ok (), db)

def deductFee (cfg : ExecConfig) (epoch : ℕ) (tx : Transaction) (db : Ledger) :
    Except String Unit × Ledger :=
  chargeFee cfg epoch (txFee env cfg tx) tx db

/-- Balance and nonce of the sender, if it has an account. -/
def senderSnapshot (tx : Transaction) (db : Ledger) : Option (ℕ × ℕ) :=
  tx.sender.bind fun addr => (db.accounts addr).map fun acct => (acct.balance, acct.nonce)

/-- Give the sender its balance and nonce back. Other changes stay. -/
def revertSender (tx : Transaction) (snapshot : Option (ℕ × ℕ)) (db : Ledger) : Ledger :=
  match tx.sender, snapshot with
  | some addr, some (balance, nonce) =>
    db.adjustAccount addr fun acct => { acct with balance := balance, nonce := nonce }
  | _, _ => db

/-- How far a transaction got. -/
inductive TxResult
  /-- Not executed: bad signature, no gas left or no money for the fee. -/
  | refused (error : String)
  | failed (error : ExecutionError)
  | done

/-- Process one transaction; `gasUsed` is the gas of the block so far. -/
def runTx (cfg : ExecConfig) (epoch gasUsed : ℕ) (tx : Transaction) (st : ChainState C S) :
    TxResult × ChainState C S :=
  match verifyTxSignature env cfg tx with
  | .error e =>
    let reason := e.toString
    (.refused s!"signature: {reason}", st)
  | .ok () =>
    let txGas := estimateGas tx
    let limit := st.blockGasLimit
    -- a sum that overflows counts as too much
    if 0 < limit ∧ (u64Max < gasUsed + txGas ∨ limit < gasUsed + txGas) then
      (.refused s!"block gas limit exceeded (used={gasUsed}, tx={txGas}, limit={limit})", st)
    else match deductFee env cfg epoch tx st.db with
      | (.error e, db) => (.refused e, { st with db := db })
      | (.ok (), db) =>
        match dispatch env cfg epoch tx { st with db := db } with
        | (.ok (), st) => (.done, st)
        | (.error e, st) =>
          (.failed e, { st with db := revertSender tx (senderSnapshot tx db) st.db })

/-- What was done of a block so far. -/
structure Progress (C S : Type) where
  st : ChainState C S
  gasUsed : ℕ
  totalFees : ℕ
  validatorKeyRotations : List ValidatorKeyRotation
  txOutcomes : List TxOutcome

/-- Before the first transaction. -/
def Progress.start (st : ChainState C S) : Progress C S := ⟨st, 0, 0, [], []⟩

def rotationOf (tx : Transaction) : List ValidatorKeyRotation :=
  match tx.body with
  | .rotateValidatorKey rot =>
    [{ validatorId := rot.validatorId, newBlsPublicKey := rot.newBlsPublicKey
       blsPopOld := rot.blsPopOld, newBlsPop := rot.blsPopNew
       prevKeyExpiryEpoch := satAdd rot.effectiveEpoch 8 }]
  | _ => []

/-- Process the next transaction of a block. -/
def Progress.step (cfg : ExecConfig) (epoch : ℕ) (r : Progress C S) (tx : Transaction) :
    Progress C S :=
  let txHash := tx.txHash env.toExecEnv
  let txGas := estimateGas tx
  let (result, st) := runTx env cfg epoch r.gasUsed tx r.st
  match result with
  | .refused error =>
    { r with
      st := st
      txOutcomes := r.txOutcomes ++ [⟨txHash, false, some error, 0⟩] }
  | .failed e =>
    { r with
      st := st
      totalFees := (r.totalFees + txFee env cfg tx) % 2 ^ 64
      txOutcomes := r.txOutcomes ++ [⟨txHash, false, some e.toString, txGas⟩] }
  | .done =>
    { r with
      st := st
      gasUsed := (r.gasUsed + txGas) % 2 ^ 64
      totalFees := (r.totalFees + txFee env cfg tx) % 2 ^ 64
      validatorKeyRotations := r.validatorKeyRotations ++ rotationOf tx
      txOutcomes := r.txOutcomes ++ [⟨txHash, true, none, txGas⟩] }

def executeTransactions (cfg : ExecConfig) (block : ExecBlock) (st : ChainState C S) :
    Progress C S :=
  run (Progress.step env cfg block.epoch) (.start st) block.transactions

/-! ### After the transactions -/

/-- Evaporate objects, with tombstones for those that are gone, and tick the engines. -/
def evaporate (cfg : ExecutorConfig) (epoch : ℕ) (objectIds : List ObjectId)
    (st : ChainState C S) : ChainState C S :=
  let r := processEvaporation env cfg.gracePeriod epoch objectIds st
  let st := r.evaporated.foldl ChainState.entomb { st with db := r.db, mmrSize := r.mmrSize }
  { st with
    contractEngine := env.contracts.tick st.contractEngine epoch
    scriptEngine := env.scripts.tick st.scriptEngine epoch }

variable (epoch : ℕ)

/-- Fire watchers; arguments that are no JSON become null. Failures of callbacks are ignored. -/
def fireWatchers (st : ChainState C S) : ChainState C S :=
  let (callbacks, watchers) := Temporal.processWatchers epoch st.db.toStateDb st.decayWatchers
  { st with
    decayWatchers := watchers
    contractEngine := callbacks.foldl (fun engine callback =>
      let (contractId, method, args) := callback
      let args := if (env.jsonError args).isSome then "null" else args
      (env.contracts.call engine contractId method args Hash.zero epoch).2)
      st.contractEngine }

/-- Execute what a deferred transaction holds. No signature, submitter or fee is checked. -/
def executeMatured (inner : Bytes) (st : ChainState C S) : Handled (ChainState C S) :=
  match env.decodeTransaction inner with
  | .error e => (.error (.contractError e), st)
  | .ok inner =>
    match inner.body with
    | .transfer tx => onLedger (executeTransfer epoch tx) st
    | .createObject tx => onLedger (executeCreateObject epoch tx) st
    | .callContract tx => executeCallContract env tx st
    | .callScript tx => executeCallScript env tx st
    | _                => (.error (.contractError "unsupported deferred inner tx type"), st)

def executeAllMatured (matured : List (AccountAddress × Bytes × ℕ))
    (st : ChainState C S) : ChainState C S :=
  matured.foldl (fun st entry => (executeMatured env epoch entry.2.1 st).2) st

def payRefunds (refunds : List (AccountAddress × ℕ)) (db : Ledger) : Ledger :=
  refunds.foldl (fun db refund => db.adjustAccount refund.1 (·.credit refund.2 epoch)) db

variable (st : ChainState C S)

/-- What the queue gives out in an epoch. -/
def dueDeferred : Temporal.DeferredQueueResult × Temporal.DeferredQueue :=
  st.deferredQueue.processEpoch epoch st.db.toStateDb (env.contracts.phaseOf st.contractEngine)

def maturedSteps : List (ChainState C S × AccountAddress × Bytes × ℕ) :=
  let (due, queue) := dueDeferred env epoch st
  trace (fun st entry => (executeMatured env epoch entry.2.1 st).2)
    { st with deferredQueue := queue } due.maturedTxs

def afterMatured : ChainState C S :=
  let (due, queue) := dueDeferred env epoch st
  executeAllMatured env epoch due.maturedTxs { st with deferredQueue := queue }

/-- Execute what matured in the queue and refund what expired. -/
def processDeferred : ChainState C S :=
  let (due, queue) := dueDeferred env epoch st
  let st := executeAllMatured env epoch due.maturedTxs { st with deferredQueue := queue }
  { st with db := payRefunds epoch due.refunds st.db }

/-- Pay out what vested of a schedule since the last time. -/
def payVested (sched : VestingSchedule) (db : Ledger) : Ledger :=
  let pending := sched.pendingReleaseAt epoch
  if pending = 0 then db else db.updateAccount sched.beneficiary (·.credit pending epoch)

/-- Note what was paid out; a schedule that is done is removed. -/
def recordVested (sched : VestingSchedule) (db : Ledger) : Ledger :=
  let updated :=
    { sched with releasedAmount := satAdd sched.releasedAmount (sched.pendingReleaseAt epoch) }
  if updated.isFullyVested then
    { db with vestingSchedules := db.vestingSchedules.erase updated.id }
  else { db with vestingSchedules := db.vestingSchedules.insert updated.id updated }

def vestingStep (db : Ledger) (sched : VestingSchedule) : Ledger :=
  if sched.pendingReleaseAt epoch = 0 ∧ !sched.isFullyVested then db
  else recordVested epoch sched (payVested epoch sched db)

def tickVesting (db : Ledger) : Ledger :=
  (db.vestingSchedules.entries.map (·.2)).foldl (vestingStep epoch) db

/-! ### Blocks -/

def beginBlock (block : ExecBlock) (st : ChainState C S) : ChainState C S :=
  let st := applyGovernanceParams st
  { st with db := finalizeExpiredProposals block.epoch st.db }

/-- The end of a block, up to the deferred transactions. -/
def beforeDeferred (cfg : ExecutorConfig) (block : ExecBlock) (scan : Scan)
    (st : ChainState C S) : ChainState C S :=
  fireWatchers env block.epoch (evaporate env cfg block.epoch scan.objectIds st)

def afterDeferred (block : ExecBlock) (scan : Scan) (totalFees : ℕ) (st : ChainState C S) :
    ChainState C S :=
  let st := distributeRewards block totalFees st
  let st := st.collectRent env block.epoch scan.accountAddresses
  { st with db := tickVesting block.epoch st.db }

/-- A block with the settings and the key orders it is executed under. -/
structure BlockInput where
  cfg : ExecutorConfig
  block : ExecBlock
  scan : Scan

def transactionsOf (input : BlockInput) (st : ChainState C S) : Progress C S :=
  executeTransactions env input.cfg.toExecConfig input.block (beginBlock input.block st)

def atDeferred (input : BlockInput) (st : ChainState C S) : ChainState C S :=
  beforeDeferred env input.cfg input.block input.scan (transactionsOf env input st).st

variable (st : ChainState C S) (input : BlockInput)

def executeBlock : BlockExecutionResult × ChainState C S :=
  let r := transactionsOf env input st
  ({ gasUsed := r.gasUsed
     baseFee := (input.cfg.feeController.map (·.baseFee)).getD 0
     totalFees := r.totalFees
     validatorKeyRotations := r.validatorKeyRotations
     txOutcomes := r.txOutcomes },
    afterDeferred env input.block input.scan r.totalFees
      (processDeferred env input.block.epoch (atDeferred env input st)))

def nextState : ChainState C S :=
  (executeBlock env st input).2

def transactionSteps : List (Progress C S × Transaction) :=
  trace (Progress.step env input.cfg.toExecConfig input.block.epoch)
    (.start (beginBlock input.block st)) input.block.transactions

end Simple

/-! ### A small chain -/

/-- A chain whose checks accept everything; nothing holds an inner transaction. -/
def chainOf {C S : Type} (contracts : ContractEngine C) (scripts : ScriptEngine S) :
    ChainEnv C S where
  toExecEnv := plainEnv
  contracts := contracts
  scripts := scripts
  jsonError _ := none
  rulesError _ := none
  scriptArgsError _ := none
  totalityError _ := none
  templateError _ := none
  decodeTransaction _ := .error "no transaction"
  mlDsaVerify _ _ _ := true
  verifyProofOfPossession _ _ := true
  validUtilization _ := .ok ()
  computeEnergy _ energy _ _ := energy
  demurrageOwed _ _ _ := 0

/-- Engines without state that accept everything except an empty script. -/
def simpleChain : ChainEnv Unit Unit :=
  chainOf
    { deploy := fun _ _ _ => .ok ()
      call := fun _ _ _ _ _ _ => (.ok (), ())
      phaseOf := fun _ _ => none
      tick := fun _ _ => () }
    { deploy := fun _ tx _ => if tx.sourceCode = "" then .error "empty script" else .ok ()
      call := fun _ _ _ => .ok ()
      admin := fun _ _ => none
      upgrade := fun _ _ _ _ => .ok ()
      tick := fun _ _ => () }

/-- One in which some byte strings hold an inner transaction. -/
def plainChain (decode : Bytes → Except String Transaction) : ChainEnv Unit Unit :=
  { simpleChain with decodeTransaction := decode }

/-- A database with nothing in it. -/
def Ledger.empty : Ledger where
  toStateDb := .empty
  stakes := ∅
  delegations := ∅
  proposals := ∅
  governanceParams := ∅
  vestingSchedules := ∅
  lastRentEpoch := 0
  stakes_keyed := .empty
  delegations_keyed := .empty
  proposals_keyed := .empty

def Ledger.fund (db : Ledger) (addr : AccountAddress) (balance : ℕ) : Ledger :=
  db.updateAccount addr fun acct => { acct with balance := balance }

/-- A fresh executor over a database. -/
def freshState (db : Ledger) : ChainState Unit Unit where
  db := db
  contractEngine := ()
  scriptEngine := ()
  callDepth := 0
  deferredQueue := .new
  decayWatchers := []
  eulogyTrie := []
  refreshPool := ∅
  rewardAccumulator := none
  mmrSize := 0
  blockGasLimit := 0

/-- A transaction without signature. -/
def unsignedTx (body : TxBody) : Transaction := ⟨body, none, none, []⟩

/-- A block without signature checks and fees. -/
def freeBlock (number epoch : ℕ) (bodies : List TxBody) : Simple.BlockInput where
  cfg := { verifySignatures := false, feeController := none, chainId := [], gracePeriod := 7 }
  block :=
    { number := number, epoch := epoch, transactions := bodies.map unsignedTx, producerId := none
      commitSigners := [], submitEpochHints := [] }
  scan := { objectIds := [], accountAddresses := [] }

end EvaporChain
