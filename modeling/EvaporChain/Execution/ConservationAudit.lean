import EvaporChain.Execution.Coins
import EvaporChain.Execution.Delegations
import EvaporChain.Execution.Polls

/-!
# The conservation audit

At the end of a block the serial executor compares the money in accounts, stakes and the refresh
pool with that before the block. Delegations are not one of the audited compartments, nor are
storage deposits, vesting schedules and the deposits of deferred transactions: what moves between
them and the accounts is an alarm unless it cancels out.
-/

namespace EvaporChain

open Core Ledger StakeRecord ChainState List Option

/-! ### Compartments -/

/-- Totals of the four compartments. -/
structure EnergyAccumulator where
  accounts : ℕ
  stake : ℕ
  refreshPool : ℕ
  slashedPool : ℕ
deriving DecidableEq

def EnergyAccumulator.total (e : EnergyAccumulator) : ℕ :=
  satAdd (satAdd (satAdd e.accounts e.stake) e.refreshPool) e.slashedPool

inductive ConservationViolation
  | decayIncreasedTotal (before after : ℕ)
  | decayExceededLambda (before after maxDecay epochs halfLife : ℕ)
deriving DecidableEq

/-- The total may not grow, and not shrink by more than it would decay. -/
def decayStep (before after : EnergyAccumulator) (epochsElapsed halfLife : ℕ) :
    Except ConservationViolation Unit :=
  let b := before.total
  let a := after.total
  if b < a then .error (.decayIncreasedTotal b a)
  else
    let retainedMin := energyAtEpoch b halfLife epochsElapsed
    if a < retainedMin then
      .error (.decayExceededLambda b a (b - retainedMin) epochsElapsed halfLife)
    else .ok ()

/-- Everything in the pool. -/
def RefreshPool.totalAccrued (pool : RefreshPool) : ℕ := satSum (pool.entries.map (·.2))

/-- The compartments of a database; `addresses` are the keys of its accounts. -/
def compartmentSnapshotWithPool (addresses : List AccountAddress) (refreshPoolTotal : ℕ)
    (db : Ledger) : EnergyAccumulator where
  accounts := satSum (addresses.filterMap fun addr => (db.accounts addr).map (·.balance))
  stake := satSum (db.allStakes.map StakeRecord.claimable)
  refreshPool := refreshPoolTotal
  slashedPool := satSum (db.allStakes.map StakeRecord.slashedAmount)

/-- The half-life of the chain, `DEFAULT_LAMBDA` unless governance sets another. -/
def governanceChainLambda (db : Ledger) : ℕ :=
  match (db.governanceParams.lookup "chain_lambda_half_life").bind Simple.parseU64 with
  | some halfLife => if 0 < halfLife then halfLife else 4096
  | none => 4096

/-- Under enforcement a violation rejects the block, otherwise it is only stored. -/
def evaluateConservationGate (verdict : Except ConservationViolation Unit) (mustEnforce : Bool) :
    Except ConservationViolation (Except ConservationViolation Unit) :=
  match verdict with
  | .ok () => .ok (.ok ())
  | .error v => if mustEnforce then .error v else .ok (.error v)

namespace Simple

variable {C S : Type} (env : ChainEnv C S)

/-- What the audit reads besides the states: the epoch of the last one, and the keys of the
accounts before and after the block. -/
structure AuditContext where
  lastAuditEpoch : Option ℕ
  addressesBefore : List AccountAddress
  addressesAfter : List AccountAddress

def mintedTotal (st : ChainState C S) : ℕ := (st.rewardAccumulator.map (·.totalMinted)).getD 0

/-- The verdict on a block; what was minted in it counts as there before. -/
def auditVerdict (ctx : AuditContext) (st : ChainState C S) (input : BlockInput) :
    Except ConservationViolation Unit :=
  let st' := nextState env st input
  let before := compartmentSnapshotWithPool ctx.addressesBefore st.refreshPool.totalAccrued st.db
  let after := compartmentSnapshotWithPool ctx.addressesAfter st'.refreshPool.totalAccrued st'.db
  let mintedThisBlock := mintedTotal st' - mintedTotal st
  let adjusted :=
    if 0 < mintedThisBlock then { before with accounts := satAdd before.accounts mintedThisBlock }
    else before
  let epochsElapsed := (ctx.lastAuditEpoch.map (input.block.epoch - ·)).getD 0
  decayStep adjusted after epochsElapsed (governanceChainLambda st'.db)

/-- What the audit stores for a block, unless it rejects it. -/
def lastConservationAudit (ctx : AuditContext) (st : ChainState C S) (input : BlockInput) :
    Except ConservationViolation (Except ConservationViolation Unit) :=
  let mustEnforce :=
    (nextState env st input).db.governanceParams.lookup "conservation_enforcement" = some "enforce"
  evaluateConservationGate (auditVerdict env ctx st input) mustEnforce

end Simple

/-! ### Money -/

/-- The part of a stake that counts: live or slashed. -/
def StakeRecord.backing (stake : StakeRecord) : ℕ := stake.claimable + stake.slashedAmount

variable (db : Ledger)

/-- The stake that counts of a validator. -/
def Ledger.backingOf (validatorId : ℕ) : ℕ :=
  db.stakes.share (fun _ => StakeRecord.backing) validatorId

/-- Money in accounts and stakes, in exact arithmetic. -/
noncomputable def Ledger.audited : ℕ :=
  Simple.totalBalance db.toStateDb + db.stakes.sum fun _ => StakeRecord.backing

/-- Money in delegation records. -/
def Ledger.delegated : ℕ := db.delegations.sum fun _ => DelegationRecord.held

namespace Ledger

variable (db : Ledger) {db' : Ledger}

lemma audited_updateAccount (addr : AccountAddress) (f : Account → Account) :
    (db.updateAccount addr f).audited + (db.account addr).balance =
      db.audited + (f (db.account addr)).balance := by
  have htotal := Simple.totalBalance_updateAccount db.toStateDb addr f
  have hstakes : (db.updateAccount addr f).stakes = db.stakes := rfl
  rw [audited, audited, hstakes, toStateDb_updateAccount]
  omega

lemma audited_putStake (record : StakeRecord) :
    (db.putStake record).audited + db.backingOf record.validatorId =
      db.audited + record.backing := by
  have hinsert := Dict.sum_insert (fun _ => backing) db.stakes record.validatorId record
  rw [audited, audited, backingOf]
  simp only [putStake]
  omega

lemma audited_removeStake (validatorId : ℕ) :
    (db.removeStake validatorId).audited + db.backingOf validatorId = db.audited := by
  have herase := Dict.sum_erase (fun _ => backing) db.stakes validatorId
  rw [audited, audited, backingOf]
  simp only [removeStake]
  omega

lemma balance_le_audited (a : AccountAddress) : (db.account a).balance ≤ db.audited :=
  (Simple.balance_le_total db.toStateDb a).trans (le_self_add)

lemma balance_add_backing_le (a : AccountAddress) (validatorId : ℕ) :
    (db.account a).balance + db.backingOf validatorId ≤ db.audited :=
  add_le_add (Simple.balance_le_total db.toStateDb a) (Dict.share_le_sum _ _ _)

lemma backingOf_of_some {db : Ledger} {validatorId : ℕ} {stake : StakeRecord}
    (h : db.stakes.lookup validatorId = some stake) : db.backingOf validatorId = stake.backing :=
  Dict.share_of_some h

/-- What leaves the audited compartments, what comes into them, and what is new to accounts,
stakes and delegations together. -/
structure Flow (out into fresh : ℕ) (db db' : Ledger) : Prop where
  audited : db'.audited + out = db.audited + into
  money : db'.audited + db'.delegated ≤ db.audited + db.delegated + fresh

lemma Flow.refl : db.Flow 0 0 0 db := ⟨rfl, le_self_add⟩

/-- What comes in was delegated before, what leaves at most is afterwards. -/
lemma Flow.of_audited {db : Ledger} {out into : ℕ}
    (haudited : db'.audited + out = db.audited + into)
    (hdelegated : db'.delegated + into ≤ db.delegated + out) : db.Flow out into 0 db' :=
  ⟨haudited, by omega⟩

lemma Flow.trans {db db'' : Ledger} {out into fresh out' into' fresh' : ℕ}
    (h : db.Flow out into fresh db') (h' : db'.Flow out' into' fresh' db'') :
    db.Flow (out + out') (into + into') (fresh + fresh') db'' := by
  obtain ⟨haudited, hmoney⟩ := h
  obtain ⟨haudited', hmoney'⟩ := h'
  constructor <;> omega

lemma SameFunds.flow {db : Ledger} (h : db.SameFunds db') : db.Flow 0 0 0 db' := by
  have haudited : db'.audited = db.audited := by
    rw [audited, audited, Simple.totalBalance_congr h.balance, h.stakes]
  have hdelegated : db'.delegated = db.delegated := by rw [delegated, delegated, h.delegations]
  exact .of_audited (by rw [haudited]) (by rw [hdelegated])

lemma Moves.flow {db : Ledger} {key : AccountAddress × ℕ} {out into : ℕ}
    (h : Moves key out into db db') : db.Flow out into 0 db' := by
  have htotal := Simple.totalBalance_of_others key.1 h.others
  have hbalance := h.balance
  have hheld := h.held
  have hdelegated : db'.delegated + db.heldAt key = db.delegated + db'.heldAt key := h.sum _
  refine .of_audited ?_ (by omega)
  rw [audited, audited, h.stakes]
  omega

/-- The balance of a delegator and one of its records are in range if all money is. -/
lemma balance_add_heldAt_le {db : Ledger} (hfits : db.audited + db.delegated ≤ u64Max)
    (key : AccountAddress × ℕ) : (db.account key.1).balance + db.heldAt key ≤ u64Max :=
  (add_le_add (db.balance_le_audited key.1) (Dict.share_le_sum _ _ _)).trans hfits

end Ledger

/-! ### Flows of transactions -/

namespace Simple

/-- What a transaction that succeeds takes out of the audited compartments: what it delegates, and
the slashed part of a stake that is claimed. New stake replaces a record that was slashed. -/
def outOf (db : Ledger) : TxBody → ℕ
  | .delegate tx => tx.amount
  | .validatorStake tx =>
    ((db.stakes.lookup tx.validatorId).map fun s => s.slashedAmount - s.stakedAmount).getD 0
  | .validatorClaimStake tx => ((db.stakes.lookup tx.validatorId).map (·.slashedAmount)).getD 0
  | _ => 0

/-- What a transaction that succeeds brings back: undelegated money. -/
def intoOf (db : Ledger) : TxBody → ℕ
  | .claimDelegation tx =>
    ((db.delegations.lookup (tx.delegator, tx.validatorId)).map (·.unbondingAmount)).getD 0
  | _ => 0

section Handlers

variable {epoch : ℕ} {db db' : Ledger} (hfits : db.audited + db.delegated ≤ u64Max)
include hfits

lemma flow_executeTransfer {tx : TransferTx} (h : executeTransfer epoch tx db = (.ok (), db')) :
    db.Flow 0 0 0 db' := by
  obtain ⟨hdistinct, -, -, hspendable, rfl⟩ := executeTransfer_ok h
  have hle := hspendable.trans (spendable_le epoch tx _)
  have hpay := db.audited_updateAccount tx.fromAddr (payTransfer epoch tx)
  rw [balance_payTransfer] at hpay
  have hcredit := (db.updateAccount tx.fromAddr (payTransfer epoch tx)).audited_updateAccount
    tx.toAddr (·.credit tx.amount epoch)
  have hroom := (db.updateAccount tx.fromAddr (payTransfer epoch tx)).balance_le_audited tx.toAddr
  set paid := db.updateAccount tx.fromAddr (payTransfer epoch tx)
  have haudited : (paid.updateAccount tx.toAddr (·.credit tx.amount epoch)).audited =
      db.audited := by
    simp only [Account.credit, satAdd] at hcredit ⊢
    omega
  exact .of_audited (by rw [haudited]) le_rfl

lemma flow_executeValidatorStake {tx : ValidatorStakeTx}
    (h : executeValidatorStake epoch tx db = (.ok (), db')) :
    db.Flow (outOf db (.validatorStake tx)) 0 0 db' := by
  obtain ⟨-, hle, rfl⟩ := executeValidatorStake_ok h
  have hbalance := hle.trans (Account.transferableBalance_le _ _)
  have hpay := db.audited_updateAccount tx.validatorAddress
    fun acct => (acct.debit tx.stakeAmount epoch).bumpNonce epoch
  have hroom := db.balance_add_backing_le tx.validatorAddress tx.validatorId
  set paid := db.updateAccount tx.validatorAddress
    fun acct => (acct.debit tx.stakeAmount epoch).bumpNonce epoch
  have hput := paid.audited_putStake (stakeOf epoch tx (db.stakes.lookup tx.validatorId))
  have hsame : paid.backingOf tx.validatorId = db.backingOf tx.validatorId := rfl
  have hid : (stakeOf epoch tx (db.stakes.lookup tx.validatorId)).validatorId = tx.validatorId :=
    rfl
  rw [hid] at hput
  set record := stakeOf epoch tx (db.stakes.lookup tx.validatorId)
  have hrecord : record.backing + outOf db (.validatorStake tx) =
      db.backingOf tx.validatorId + tx.stakeAmount := by
    simp only [record, backing, claimable, stakeOf, outOf]
    cases hstake : db.stakes.lookup tx.validatorId with
    | none =>
      rw [backingOf, Dict.share_of_none hstake] at hroom ⊢
      simp only [map_none, getD_none]
      have := Nat.mod_eq_of_lt (show 0 + tx.stakeAmount < 2 ^ 64 by simp [u64Max] at hfits; omega)
      omega
    | some stake =>
      rw [backingOf_of_some hstake] at hroom ⊢
      simp only [backing, claimable] at hroom ⊢
      simp only [map_some, getD_some]
      have := Nat.mod_eq_of_lt (show stake.stakedAmount + tx.stakeAmount < 2 ^ 64 by
        simp only [u64Max] at hfits; omega)
      omega
  simp only [Account.bumpNonce, Account.debit] at hpay
  have haudited : (paid.putStake record).audited + outOf db (.validatorStake tx) = db.audited := by
    omega
  refine .of_audited (by rw [haudited, add_zero]) ?_
  exact le_self_add

lemma flow_executeValidatorClaimStake {tx : ValidatorClaimStakeTx}
    (h : executeValidatorClaimStake epoch tx db = (.ok (), db')) :
    db.Flow (outOf db (.validatorClaimStake tx)) 0 0 db' := by
  obtain ⟨-, stake, hstake, -, rfl⟩ := executeValidatorClaimStake_ok h
  have hpay := db.audited_updateAccount tx.validatorAddress (·.claim stake.claimable epoch)
  have hroom := db.balance_add_backing_le tx.validatorAddress tx.validatorId
  set paid := db.updateAccount tx.validatorAddress (·.claim stake.claimable epoch)
  have hremove := paid.audited_removeStake tx.validatorId
  have hsame : paid.backingOf tx.validatorId = stake.backing := backingOf_of_some hstake
  have hout : outOf db (.validatorClaimStake tx) = stake.slashedAmount := by
    simp [outOf, hstake]
  rw [hsame] at hremove
  rw [backingOf_of_some hstake] at hroom
  simp only [backing] at hremove hroom
  have hwrap := Nat.mod_eq_of_lt (show (db.account tx.validatorAddress).balance + stake.claimable <
    2 ^ 64 by simp [u64Max] at hfits; omega)
  simp only [Account.claim] at hpay
  have haudited : (paid.removeStake tx.validatorId).audited + stake.slashedAmount = db.audited := by
    omega
  rw [hout]
  refine .of_audited (by rw [haudited, add_zero]) ?_
  exact le_self_add

lemma flow_executeClaimDelegation {tx : ClaimDelegationTx}
    (h : executeClaimDelegation epoch tx db = (.ok (), db')) :
    db.Flow 0 (intoOf db (.claimDelegation tx)) 0 db' := by
  obtain ⟨-, record, hrecord, -⟩ := executeClaimDelegation_ok h
  have hinto : intoOf db (.claimDelegation tx) = record.unbondingAmount := by
    simp [intoOf, hrecord]
  rw [hinto]
  exact (moves_executeClaimDelegation h hrecord (balance_add_heldAt_le hfits (_, _))).flow

end Handlers

lemma flow_executeValidatorExit {epoch : ℕ} {db db' : Ledger} {tx : ValidatorExitTx}
    (h : executeValidatorExit epoch tx db = (.ok (), db')) : db.Flow 0 0 0 db' := by
  obtain ⟨-, stake, hstake, -, -, rfl⟩ := executeValidatorExit_ok h
  have hbump := db.audited_updateAccount tx.validatorAddress (·.bumpNonce epoch)
  set bumped := db.updateAccount tx.validatorAddress (·.bumpNonce epoch)
  set record : StakeRecord :=
    { stake with unbondingEpoch := some ((epoch + unbondingPeriodEpochs) % 2 ^ 64) }
  have hput := bumped.audited_putStake record
  have hkey : record.validatorId = tx.validatorId := db.stakes_keyed _ stake hstake
  have hsame : bumped.backingOf tx.validatorId = stake.backing := backingOf_of_some hstake
  have hbacking : record.backing = stake.backing := rfl
  rw [hkey] at hput
  have hbalance : (Account.bumpNonce (db.account tx.validatorAddress) epoch).balance =
      (db.account tx.validatorAddress).balance := rfl
  have haudited : (bumped.putStake record).audited = db.audited := by omega
  exact .of_audited (by rw [haudited]) le_rfl

/-! ### Flows of a block -/

variable {C S : Type} {env : ChainEnv C S}

/-- A flow that leaves the refresh pool and the rewards alone. -/
structure StateFlow (out into fresh : ℕ) (st st' : ChainState C S) : Prop where
  db : st.db.Flow out into fresh st'.db
  refreshPool : st'.refreshPool = st.refreshPool
  rewardAccumulator : st'.rewardAccumulator = st.rewardAccumulator

lemma StateFlow.refl (st : ChainState C S) : StateFlow 0 0 0 st st := ⟨.refl _, rfl, rfl⟩

lemma StateFlow.trans {st st' st'' : ChainState C S} {out into fresh out' into' fresh' : ℕ}
    (h : StateFlow out into fresh st st') (h' : StateFlow out' into' fresh' st' st'') :
    StateFlow (out + out') (into + into') (fresh + fresh') st st'' :=
  ⟨h.db.trans h'.db, h'.refreshPool.trans h.refreshPool,
    h'.rewardAccumulator.trans h.rewardAccumulator⟩

lemma stateFlow_onLedger {f : Ledger → Handled Ledger} {st st' : ChainState C S}
    {out into fresh : ℕ} {result : Except ExecutionError Unit} (h : onLedger f st = (result, st'))
    (hf : ∀ {db}, f st.db = (result, db) → st.db.Flow out into fresh db) :
    StateFlow out into fresh st st' := by
  obtain ⟨_, hdb, rfl⟩ := onLedger_eq h
  exact ⟨hf hdb, rfl, rfl⟩

section Transactions

variable (env) (cfg : ExecConfig) (epoch : ℕ) (r : Progress C S) (tx : Transaction)

/-- Whether the next transaction of a block succeeds. -/
def Progress.succeeds : Bool :=
  match (runTx env cfg epoch r.gasUsed tx r.st).1 with
  | .done => true
  | _ => false

/-- What the next transaction of a block takes out. -/
def Progress.out : ℕ :=
  if r.succeeds env cfg epoch tx then outOf r.st.db tx.body else 0

/-- What the next transaction of a block brings back. -/
def Progress.into : ℕ :=
  if r.succeeds env cfg epoch tx then intoOf r.st.db tx.body else 0

variable {cfg epoch}

lemma flow_step (hfree : cfg.feeController = none) {tx : Transaction} (hmoves : movesValue tx.body)
    {r : Progress C S} (hfits : r.st.db.audited + r.st.db.delegated ≤ u64Max) :
    StateFlow (r.out env cfg epoch tx) (r.into env cfg epoch tx) 0 r.st
      (r.step env cfg epoch tx).st := by
  rw [st_step]
  unfold Progress.out Progress.into Progress.succeeds
  rcases hrun : runTx env cfg epoch r.gasUsed tx r.st with ⟨result, st'⟩
  rcases runTx_free hmoves hfree hrun with ⟨hfailed, hst', hfunds⟩ | ⟨rfl, hok⟩
  · have hflow : StateFlow 0 0 0 r.st st' := by
      refine ⟨hfunds.flow, ?_, ?_⟩ <;> rw [hst']
    cases result <;> first | exact hflow | exact absurd rfl hfailed
  · unfold dispatch at hok
    cases hbody : tx.body <;> simp only [hbody] at hok hmoves
    case transfer => exact stateFlow_onLedger hok (flow_executeTransfer hfits)
    case validatorStake => exact stateFlow_onLedger hok (flow_executeValidatorStake hfits)
    case validatorExit => exact stateFlow_onLedger hok flow_executeValidatorExit
    case validatorClaimStake => exact stateFlow_onLedger hok (flow_executeValidatorClaimStake hfits)
    case delegate =>
      exact stateFlow_onLedger hok fun hdb =>
        (moves_executeDelegate (balance_add_heldAt_le hfits _) hdb rfl).flow
    case undelegate =>
      exact stateFlow_onLedger hok fun hdb =>
        (moves_executeUndelegate (balance_add_heldAt_le hfits _) hdb rfl).flow
    case claimDelegation => exact stateFlow_onLedger hok (flow_executeClaimDelegation hfits)
    all_goals cases hmoves

end Transactions

/-- A run of steps each of which is a flow, where money stays in range. -/
lemma flow_run {X E : Type} (state : X → ChainState C S) (step : X → E → X) {out into : X → E → ℕ}
    {G : E → Prop} (hstep : ∀ x e, G e → (state x).db.audited + (state x).db.delegated ≤ u64Max →
      StateFlow (out x e) (into x e) 0 (state x) (state (step x e))) (x : X)
    (hfits : (state x).db.audited + (state x).db.delegated ≤ u64Max) (es : List E)
    (hes : ∀ e ∈ es, G e) :
    StateFlow ((trace step x es).map fun y => out y.1 y.2).sum
      ((trace step x es).map fun y => into y.1 y.2).sum 0 (state x) (state (run step x es)) := by
  induction es generalizing x with
  | nil => exact .refl _
  | cons e es ih =>
    have hfirst := hstep x e (hes e (.head _)) hfits
    have hmoney := hfirst.db.money
    rw [add_zero] at hmoney
    have hrest := ih (step x e) (hmoney.trans hfits) fun e' he' =>
      hes e' (.tail _ he')
    exact hfirst.trans hrest

/-! ### Phases -/

section Phases

variable (env)

lemma flow_beginBlock (block : ExecBlock) (st : ChainState C S) :
    StateFlow 0 0 0 st (beginBlock block st) := by
  obtain ⟨hdb, hstakes, hdelegations, -, hpool, haccumulator⟩ := beginBlock_keeps block st
  have hfunds : st.db.SameFunds (beginBlock block st).db :=
    ⟨fun a => by rw [hdb], hstakes, hdelegations⟩
  exact ⟨hfunds.flow, hpool, haccumulator⟩

lemma unswept_funds :
    Ledger.Unswept fun db => ((fun a => (db.account a).balance), db.stakes, db.delegations) where
  storageBytes db addr bytes := by
    refine Prod.ext (funext fun a => ?_) rfl
    dsimp only
    rw [toStateDb_updateAccount, StateDb.account_updateAccount]
    split_ifs with ha
    · rw [ha]
    · rfl
  putObject _ _ := rfl
  deleteObject _ _ := rfl
  putGhost _ _ := rfl

lemma flow_beforeDeferred (cfg : ExecutorConfig) (block : ExecBlock) (scan : Scan)
    (st : ChainState C S) : StateFlow 0 0 0 st (beforeDeferred env cfg block scan st) := by
  have hsweep := part_processEvaporation env unswept_funds cfg.gracePeriod block.epoch
    scan.objectIds st
  rw [← db_beforeDeferred, Prod.mk.injEq, Prod.mk.injEq] at hsweep
  obtain ⟨hbalances, hstakes, hdelegations⟩ := hsweep
  have hfunds : st.db.SameFunds (beforeDeferred env cfg block scan st).db :=
    ⟨congrFun hbalances, hstakes, hdelegations⟩
  have hpools (keys : List Hash) (st : ChainState C S) :
      ((keys.foldl entomb st).refreshPool, (keys.foldl entomb st).rewardAccumulator) =
          (st.refreshPool, st.rewardAccumulator) :=
    foldl_keeps entomb
      (g := fun st : ChainState C S => (st.refreshPool, st.rewardAccumulator))
      (fun st key => by unfold entomb; split <;> rfl) keys st
  exact ⟨hfunds.flow, congrArg Prod.fst (hpools ..), congrArg Prod.snd (hpools ..)⟩

/-- The deposit that a matured transaction locks. -/
def maturedOut (epoch : ℕ) (st : ChainState C S) (inner : Bytes) : ℕ :=
  match env.decodeTransaction inner with
  | .error _ => 0
  | .ok tx =>
    match tx.body with
    | .createObject tx =>
      if (executeCreateObject epoch tx st.db).1.isOk then minStorageDeposit else 0
    | _ => 0

variable {db : Ledger}

lemma flow_executeCreateObject {epoch : ℕ} {db' : Ledger} {tx : CreateObjectTx}
    (h : executeCreateObject epoch tx db = (.ok (), db')) : db.Flow minStorageDeposit 0 0 db' := by
  obtain ⟨-, hle, rfl⟩ := executeCreateObject_ok h
  have hbalance := hle.trans (Account.transferableBalance_le _ _)
  have hlock := db.audited_updateAccount tx.creator
    (·.lockDeposit (satAdd 97 tx.data.length) epoch)
  set locked := db.updateAccount tx.creator (·.lockDeposit (satAdd 97 tx.data.length) epoch)
  have hstored : (locked.putObject (tx.object epoch)).audited = locked.audited := by
    exact congrArg₂ (· + ·) (totalBalance_congr fun _ => rfl) rfl
  simp only [Account.lockDeposit] at hlock
  refine .of_audited ?_ ?_
  · omega
  · exact le_self_add

lemma flow_executeMatured (epoch : ℕ) (st : ChainState C S) (inner : Bytes)
    (hfits : st.db.audited + st.db.delegated ≤ u64Max) :
    StateFlow (maturedOut env epoch st inner) 0 0 st (executeMatured env epoch inner st).2 := by
  unfold maturedOut executeMatured
  cases env.decodeTransaction inner with
  | error e => exact .refl st
  | ok tx =>
    cases hbody : tx.body <;> simp only [hbody]
    case transfer t =>
      rcases hrun : executeTransfer epoch t st.db with ⟨_ | _, db⟩ <;> simp only [onLedger, hrun]
      · exact ⟨(executeTransfer_error hrun).sameFunds.flow, rfl, rfl⟩
      · exact ⟨flow_executeTransfer hfits hrun, rfl, rfl⟩
    case createObject t =>
      rcases hrun : executeCreateObject epoch t st.db with ⟨_ | _, db⟩ <;>
        simp [onLedger, hrun]
      · exact ⟨(executeCreateObject_error hrun).sameFunds.flow, rfl, rfl⟩
      · exact ⟨flow_executeCreateObject hrun, rfl, rfl⟩
    case callContract t =>
      rcases hrun : executeCallContract env t st with ⟨_ | _, st'⟩
      · rcases executeCallContract_error hrun with rfl | ⟨_, _, -, rfl⟩
        · exact .refl _
        · exact ⟨.refl _, rfl, rfl⟩
      · obtain ⟨_, rfl⟩ := executeCallContract_ok hrun
        exact ⟨.refl _, rfl, rfl⟩
    case callScript t =>
      rcases hrun : executeCallScript env t st with ⟨_ | _, st'⟩
      · rw [executeCallScript_error hrun]
        exact .refl _
      · obtain ⟨_, rfl⟩ := executeCallScript_ok hrun
        exact ⟨.refl _, rfl, rfl⟩
    all_goals exact .refl st

/-- A credit that stays in range. -/
lemma flow_credit (addr : AccountAddress) {amount : ℕ} (epoch : ℕ)
    (hfits : db.audited + amount ≤ u64Max) :
    db.Flow 0 amount amount (db.updateAccount addr (·.credit amount epoch)) := by
  have hcredit := db.audited_updateAccount addr (·.credit amount epoch)
  have hroom := db.balance_le_audited addr
  simp only [Account.credit, satAdd] at hcredit
  have hdelegated : (db.updateAccount addr (·.credit amount epoch)).delegated = db.delegated := rfl
  have haudited : (db.updateAccount addr (·.credit amount epoch)).audited =
      db.audited + amount := by
    simp only [Account.credit, satAdd]
    omega
  refine ⟨by rw [haudited, add_zero], ?_⟩
  omega

/-- What refunds pay to submitters that have an account. -/
def refundsPaid (refunds : List (AccountAddress × ℕ)) (db : Ledger) : ℕ :=
  (refunds.map fun refund => if (db.accounts refund.1).isSome then refund.2 else 0).sum

variable (epoch : ℕ)

lemma flow_payRefunds (refunds : List (AccountAddress × ℕ))
    (hfits : db.audited + refundsPaid refunds db ≤ u64Max) :
    db.Flow 0 (refundsPaid refunds db) (refundsPaid refunds db) (payRefunds epoch refunds db) := by
  unfold payRefunds
  induction refunds generalizing db with
  | nil => exact .refl db
  | cons refund refunds ih =>
    have hsame : refundsPaid refunds (db.adjustAccount refund.1 (·.credit refund.2 epoch)) =
        refundsPaid refunds db := by
      unfold refundsPaid
      simp
    have hsplit : refundsPaid (refund :: refunds) db =
        (if (db.accounts refund.1).isSome then refund.2 else 0) + refundsPaid refunds db := rfl
    rw [hsplit] at hfits ⊢
    have hfirst : db.Flow 0 (if (db.accounts refund.1).isSome then refund.2 else 0)
        (if (db.accounts refund.1).isSome then refund.2 else 0)
        (db.adjustAccount refund.1 (·.credit refund.2 epoch)) := by
      unfold adjustAccount StateDb.adjustAccount
      split_ifs with hsome
      · rw [if_pos hsome] at hfits
        exact flow_credit refund.1 epoch (by omega)
      · exact .refl db
    have haudited := hfirst.audited
    rw [foldl_cons, ← hsame]
    refine Eq.mp ?_ (hfirst.trans (ih ?_))
    · rw [add_zero]
    · omega

/-- What vests in an epoch. -/
def vestedDue (db : Ledger) : ℕ :=
  ((db.vestingSchedules.entries.map (·.2)).map fun sched => sched.pendingReleaseAt epoch).sum

lemma flow_vestingStep (sched : VestingSchedule)
    (hfits : db.audited + sched.pendingReleaseAt epoch ≤ u64Max) :
    db.Flow 0 (sched.pendingReleaseAt epoch) (sched.pendingReleaseAt epoch)
      (vestingStep epoch db sched) := by
  have hrecord (db : Ledger) : db.SameFunds (recordVested epoch sched db) := by
    simp only [recordVested]
    split_ifs <;> exact ⟨fun _ => rfl, rfl, rfl⟩
  have hpaid : db.Flow 0 (sched.pendingReleaseAt epoch) (sched.pendingReleaseAt epoch)
      (payVested epoch sched db) := by
    simp only [payVested]
    split_ifs with hzero
    · rw [hzero]
      exact .refl db
    · exact flow_credit _ epoch hfits
  unfold vestingStep
  split_ifs with hidle
  · rw [hidle.1]
    exact .refl db
  · exact hpaid.trans (hrecord _).flow

lemma flow_tickVesting (hfits : db.audited + vestedDue epoch db ≤ u64Max) :
    db.Flow 0 (vestedDue epoch db) (vestedDue epoch db) (tickVesting epoch db) := by
  unfold tickVesting vestedDue at *
  generalize db.vestingSchedules.entries.map (·.2) = scheds at *
  induction scheds generalizing db with
  | nil => exact .refl db
  | cons sched scheds ih =>
    rw [map_cons, sum_cons] at hfits ⊢
    have hfirst : db.Flow 0 _ _ _ := flow_vestingStep epoch sched (by omega)
    have haudited := hfirst.audited
    rw [foldl_cons]
    refine Eq.mp ?_ (hfirst.trans (ih ?_))
    · rw [add_zero]
    · omega

/-- Neither rent nor demurrage is due from any account. -/
def RentFree (addresses : List AccountAddress) (st : ChainState C S) : Prop :=
  epoch ≤ st.db.lastRentEpoch ∨ ∀ addr ∈ addresses, ∀ acct, st.db.accounts addr = some acct →
      acct.storageBytes = 0 ∧
        min (env.demurrageOwed acct.balance (max acct.lastTouchedEpoch st.db.lastRentEpoch) epoch)
          acct.balance = 0

lemma flow_collectRent {epoch : ℕ} {addresses : List AccountAddress} {st : ChainState C S}
    (h : RentFree env epoch addresses st) :
    StateFlow 0 0 0 st (st.collectRent env epoch addresses) ∧
      (st.collectRent env epoch addresses).db.vestingSchedules = st.db.vestingSchedules := by
  simp only [collectRent]
  split_ifs with hdone
  · exact ⟨.refl st, rfl⟩
  · have hfree := h.resolve_left hdone
    have hrent : addresses.foldl rentStep st = st := by
      refine foldl_fixed _ fun addr haddr => ?_
      unfold rentStep
      split
      · rfl
      · rename_i acct hacct
        simp [(hfree addr haddr acct hacct).1]
    have hdemurrage : addresses.foldl (demurrageStep env st.db.lastRentEpoch epoch) st = st := by
      refine foldl_fixed _ fun addr haddr => ?_
      unfold demurrageStep
      split
      · rfl
      · rename_i acct hacct
        simp [(hfree addr haddr acct hacct).2]
    rw [hrent, hdemurrage]
    exact ⟨⟨Ledger.SameFunds.flow ⟨fun _ => rfl, rfl, rfl⟩, rfl, rfl⟩, rfl⟩

end Phases

/-! ### Blocks -/

section Blocks

variable (env) (st : ChainState C S) (input : BlockInput)

/-- What the refunds of a block pay. -/
def blockRefunded : ℕ :=
  refundsPaid (dueDeferred env input.block.epoch (atDeferred env input st)).1.refunds
    (afterMatured env input.block.epoch (atDeferred env input st)).db

/-- What vests in a block. -/
def blockVested : ℕ :=
  vestedDue input.block.epoch (processDeferred env input.block.epoch (atDeferred env input st)).db

/-- What leaves the audited compartments in a block: delegations, slashed stakes that are claimed,
deposits of objects. -/
def blockOut : ℕ :=
  ((transactionSteps env st input).map fun x =>
      x.1.out env input.cfg.toExecConfig input.block.epoch x.2).sum +
    ((maturedSteps env input.block.epoch (atDeferred env input st)).map fun x =>
      maturedOut env input.block.epoch x.1 x.2.2.1).sum

/-- What comes into the audited compartments in a block: undelegated money, refunds, vested
allocations. -/
def blockInto : ℕ :=
  ((transactionSteps env st input).map fun x =>
      x.1.into env input.cfg.toExecConfig input.block.epoch x.2).sum +
    (blockRefunded env st input + blockVested env st input)

/-- A block that moves value without fees, rewards, rent and demurrage, in range. -/
structure ValueBlock : Prop where
  free : input.cfg.feeController = none
  moves : ∀ tx ∈ input.block.transactions, movesValue tx.body
  noRewards : st.rewardAccumulator = none
  noRent : RentFree env input.block.epoch input.scan.accountAddresses
    (processDeferred env input.block.epoch (atDeferred env input st))
  fits : st.db.audited + st.db.delegated + st.refreshPool.totalAccrued +
    (blockRefunded env st input + blockVested env st input) ≤ u64Max

variable {env st input}

lemma flow_atDeferred (h : ValueBlock env st input) :
    StateFlow ((transactionSteps env st input).map fun x =>
        x.1.out env input.cfg.toExecConfig input.block.epoch x.2).sum
      ((transactionSteps env st input).map fun x =>
        x.1.into env input.cfg.toExecConfig input.block.epoch x.2).sum 0 st
      (atDeferred env input st) := by
  have hfits := h.fits
  have hbegin := flow_beginBlock input.block st
  have hmoney := hbegin.db.money
  have htransactions := flow_run Progress.st
    (Progress.step env input.cfg.toExecConfig input.block.epoch)
    (G := fun tx => movesValue tx.body)
    (fun r tx hmoves hfits => flow_step env h.free hmoves hfits)
    (.start (beginBlock input.block st))
    (hmoney.trans (by omega)) input.block.transactions h.moves
  have hend := flow_beforeDeferred env input.cfg input.block input.scan
    (transactionsOf env input st).st
  refine Eq.mp ?_ (hbegin.trans (htransactions.trans hend))
  simp only [zero_add, add_zero]
  rfl

lemma flow_processDeferred {epoch : ℕ} {st : ChainState C S}
    (hfits : st.db.audited + st.db.delegated +
      refundsPaid (dueDeferred env epoch st).1.refunds (afterMatured env epoch st).db ≤ u64Max) :
    StateFlow ((maturedSteps env epoch st).map fun x => maturedOut env epoch x.1 x.2.2.1).sum
      (refundsPaid (dueDeferred env epoch st).1.refunds (afterMatured env epoch st).db)
      (refundsPaid (dueDeferred env epoch st).1.refunds (afterMatured env epoch st).db) st
      (processDeferred env epoch st) := by
  have hqueue : StateFlow 0 0 0 st { st with deferredQueue := (dueDeferred env epoch st).2 } :=
    ⟨.refl _, rfl, rfl⟩
  have hstep (st : ChainState C S) (entry : AccountAddress × Bytes × ℕ) (_ : True)
      (hfits : st.db.audited + st.db.delegated ≤ u64Max) :
      StateFlow (maturedOut env epoch st entry.2.1) 0 0 st
        (executeMatured env epoch entry.2.1 st).2 :=
    flow_executeMatured env epoch st entry.2.1 hfits
  have hmatured := flow_run (fun st : ChainState C S => st) _ hstep
    { st with deferredQueue := (dueDeferred env epoch st).2 }
    (show st.db.audited + st.db.delegated ≤ u64Max by omega)
    (dueDeferred env epoch st).1.maturedTxs (fun _ _ => trivial)
  have hzero (l : List (ChainState C S × AccountAddress × Bytes × ℕ)) :
      (l.map fun _ => 0).sum = 0 := by simp
  rw [hzero] at hmatured
  have hstate : StateFlow ((maturedSteps env epoch st).map fun x =>
      maturedOut env epoch x.1 x.2.2.1).sum 0 0 st (afterMatured env epoch st) := by
    refine Eq.mp ?_ (hqueue.trans hmatured)
    simp only [zero_add]
    rfl
  have hmoney := hstate.db.money
  have hrefunds : (afterMatured env epoch st).db.Flow 0 _ _ _ :=
    flow_payRefunds epoch (dueDeferred env epoch st).1.refunds (by omega)
  have hpaid : StateFlow _ _ _ (afterMatured env epoch st) (processDeferred env epoch st) :=
    ⟨hrefunds, rfl, rfl⟩
  refine Eq.mp ?_ (hstate.trans hpaid)
  simp

/-- The flow of a whole block. -/
lemma flow_nextState (h : ValueBlock env st input) :
    StateFlow (blockOut env st input) (blockInto env st input)
      (blockRefunded env st input + blockVested env st input) st (nextState env st input) := by
  have hfits := h.fits
  have hbefore := flow_atDeferred h
  have hmoney := hbefore.db.money
  have hdeferred : StateFlow _ (blockRefunded env st input) (blockRefunded env st input)
      (atDeferred env input st) (processDeferred env input.block.epoch (atDeferred env input st)) :=
    flow_processDeferred (show _ + blockRefunded env st input ≤ u64Max by omega)
  have hmoney' := hdeferred.db.money
  set deferred := processDeferred env input.block.epoch (atDeferred env input st)
  have hrewards : distributeRewards input.block (transactionsOf env input st).totalFees deferred =
      deferred := by
    have hnone := hdeferred.rewardAccumulator.trans (hbefore.rewardAccumulator.trans h.noRewards)
    unfold distributeRewards
    rw [hnone]
  have hfree : RentFree env input.block.epoch input.scan.accountAddresses deferred := h.noRent
  obtain ⟨hrent, hschedules⟩ := flow_collectRent env hfree
  have hcollected := hrent.db.audited
  set collected := deferred.collectRent env input.block.epoch input.scan.accountAddresses
  have hsame : vestedDue input.block.epoch collected.db = blockVested env st input := by
    rw [vestedDue, hschedules]
    rfl
  have hvesting : StateFlow 0 _ _ collected
      { collected with db := tickVesting input.block.epoch collected.db } :=
    ⟨flow_tickVesting input.block.epoch (by omega), rfl, rfl⟩
  rw [hsame] at hvesting
  have hnext : nextState env st input =
      { collected with db := tickVesting input.block.epoch collected.db } := by
    unfold nextState executeBlock afterDeferred
    dsimp only
    rw [hrewards]
  rw [hnext]
  refine Eq.mp ?_ (hbefore.trans (hdeferred.trans (hrent.trans hvesting)))
  unfold blockOut blockInto
  simp

end Blocks

/-! ### Verdicts -/

/-- The keys of the accounts of a database. -/
structure ListsAccounts (db : Ledger) (addresses : List AccountAddress) : Prop where
  nodup : addresses.Nodup
  mem_iff : ∀ addr, addr ∈ addresses ↔ (db.accounts addr).isSome

lemma sum_balances {db : Ledger} {addresses : List AccountAddress}
    (h : ListsAccounts db addresses) :
    (addresses.filterMap fun addr => (db.accounts addr).map (·.balance)).sum =
      totalBalance db.toStateDb := by
  have hread (l : List AccountAddress) :
      (l.filterMap fun addr => (db.accounts addr).map (·.balance)).sum =
        (l.map fun addr => (db.account addr).balance).sum := by
    induction l with
    | nil => rfl
    | cons addr l ih =>
      cases hacct : db.accounts addr with
      | none =>
        rw [filterMap_cons_none (by rw [hacct]; rfl), map_cons, ih,
          StateDb.account_of_none hacct]
        exact (zero_add _).symm
      | some acct =>
        rw [filterMap_cons_some (by rw [hacct]; rfl), map_cons, sum_cons,
          sum_cons, ih, StateDb.account_of_some hacct]
  rw [hread]
  refine sum_map_of_support h.nodup fun addr haddr => ?_
  have hnone : db.accounts addr = none := by
    rw [h.mem_iff] at haddr
    exact Option.not_isSome_iff_eq_none.mp haddr
  rw [StateDb.account_of_none hnone]
  rfl

/-- In range, the snapshot adds up to the audited money and the pool. -/
lemma total_snapshot {db : Ledger} {addresses : List AccountAddress}
    (h : ListsAccounts db addresses) {pool : ℕ} (hfits : db.audited + pool ≤ u64Max) :
    (compartmentSnapshotWithPool addresses pool db).total = db.audited + pool := by
  have hbalances := sum_balances h
  have hstakes : (db.allStakes.map claimable).sum + (db.allStakes.map slashedAmount).sum =
      db.stakes.sum fun _ => backing := by
    rw [allStakes, List.map_map, List.map_map, ← sum_map_add]
    rfl
  unfold audited at hfits ⊢
  have haccounts : satSum (addresses.filterMap fun addr => (db.accounts addr).map (·.balance)) =
      totalBalance db.toStateDb := by
    rw [satSum_eq_sum (by omega), hbalances]
  have hlive := satSum_eq_sum (l := db.allStakes.map claimable) (by omega)
  have hslashed := satSum_eq_sum (l := db.allStakes.map slashedAmount) (by omega)
  simp only [EnergyAccumulator.total, compartmentSnapshotWithPool, haccounts, hlive, hslashed,
    satAdd]
  generalize totalBalance db.toStateDb = coins at *
  omega

/-- The gate stores a clean audit exactly if the verdict is clean, enforced or not. -/
lemma evaluateConservationGate_eq_ok {verdict : Except ConservationViolation Unit}
    {mustEnforce : Bool} :
    evaluateConservationGate verdict mustEnforce = .ok (.ok ()) ↔ verdict = .ok () := by
  unfold evaluateConservationGate
  cases verdict with
  | ok u => simp
  | error v => cases mustEnforce <;> simp

lemma decayStep_eq_ok {before after : EnergyAccumulator} {epochsElapsed halfLife : ℕ} :
    decayStep before after epochsElapsed halfLife = .ok () ↔ after.total ≤ before.total ∧
        energyAtEpoch before.total halfLife epochsElapsed ≤ after.total := by
  simp only [decayStep]
  split_ifs with hgrows hdrops
  · simp [hgrows]
  · simp [hdrops]
  · simp [not_lt.mp hgrows, not_lt.mp hdrops]

section

variable {st : ChainState C S} {input : BlockInput} {ctx : AuditContext}

/-- A block that only moves value passes the audit exactly if no more comes out of delegations,
refunds and vesting than goes the other way, and the rest of what goes there could have decayed. -/
theorem audit_clean_iff (h : ValueBlock env st input)
    (hbefore : ListsAccounts st.db ctx.addressesBefore)
    (hafter : ListsAccounts (nextState env st input).db ctx.addressesAfter) :
    let total := st.db.audited + st.refreshPool.totalAccrued
    let elapsed := (ctx.lastAuditEpoch.map (input.block.epoch - ·)).getD 0
    lastConservationAudit env ctx st input = .ok (.ok ()) ↔
      blockInto env st input ≤ blockOut env st input ∧
        energyAtEpoch total (governanceChainLambda (nextState env st input).db) elapsed +
          blockOut env st input ≤ total + blockInto env st input := by
  intro total elapsed
  have hfits := h.fits
  have hflow := flow_nextState h
  have haudited := hflow.db.audited
  have hmoney := hflow.db.money
  have htotal : (compartmentSnapshotWithPool ctx.addressesBefore st.refreshPool.totalAccrued
      st.db).total = total := total_snapshot hbefore (by omega)
  have htotal' : (compartmentSnapshotWithPool ctx.addressesAfter
      (nextState env st input).refreshPool.totalAccrued (nextState env st input).db).total =
      (nextState env st input).db.audited + st.refreshPool.totalAccrued := by
    rw [hflow.refreshPool]
    exact total_snapshot hafter (by omega)
  have hminted : mintedTotal (nextState env st input) - mintedTotal st = 0 := by
    rw [mintedTotal, mintedTotal, hflow.rewardAccumulator, Nat.sub_self]
  unfold lastConservationAudit
  rw [evaluateConservationGate_eq_ok]
  have helapsed : (ctx.lastAuditEpoch.map (input.block.epoch - ·)).getD 0 = elapsed := rfl
  unfold auditVerdict
  simp only [hminted, lt_irrefl, if_false, decayStep_eq_ok, htotal, htotal', helapsed]
  constructor
  · rintro ⟨hgrows, hdrops⟩
    constructor <;> omega
  · rintro ⟨hgrows, hdrops⟩
    constructor <;> omega

/-- A block in which the delegator of `delegatorState` delegates. -/
def delegatingBlock : BlockInput := freeBlock 1 8192 [.delegate ⟨addressOf 1, 7, 60, 0⟩]

lemma accounts_delegatorState (a : AccountAddress) :
    (delegatorState.db.accounts a).isSome ↔ a = addressOf 1 := by
  rw [delegatorState, freshState, toStateDb_putStake, fund,
    toStateDb_updateAccount, StateDb.accounts_updateAccount]
  split_ifs with ha
  · simp [ha]
  · simp [ha, empty, StateDb.empty]

lemma audited_delegatorState : delegatorState.db.audited = 105 := by
  have hbalance (a : AccountAddress) :
      (delegatorState.db.account a).balance = if a = addressOf 1 then 100 else 0 := by
    rw [delegatorState, freshState, toStateDb_putStake, fund,
      toStateDb_updateAccount, StateDb.account_updateAccount]
    split_ifs <;> rfl
  have htotal : totalBalance delegatorState.db.toStateDb = 100 := by simp [totalBalance, hbalance]
  rw [audited, htotal]
  rfl

lemma valueBlock_delegating : ValueBlock simpleChain delegatorState delegatingBlock where
  free := rfl
  moves := by simp [delegatingBlock, freeBlock, unsignedTx, movesValue]
  noRewards := rfl
  noRent := .inr (by simp [delegatingBlock, freeBlock])
  fits := by
    have hrefunded : blockRefunded simpleChain delegatorState delegatingBlock = 0 := by
      decide +kernel
    have hvested : blockVested simpleChain delegatorState delegatingBlock = 0 := by
      decide +kernel
    rw [audited_delegatorState]
    decide

/-- The block opens no account. -/
lemma listsAccounts_delegating :
    ListsAccounts (nextState simpleChain delegatorState delegatingBlock).db [addressOf 1] := by
  set tx := unsignedTx (.delegate ⟨addressOf 1, 7, 60, 0⟩)
  set begun := Progress.start (beginBlock delegatingBlock.block delegatorState)
  have hsucceeds : begun.succeeds simpleChain delegatingBlock.cfg.toExecConfig 8192 tx = true := by
    decide +kernel
  have hlast : (transactionsOf simpleChain delegatingBlock delegatorState).st =
      (begun.step simpleChain delegatingBlock.cfg.toExecConfig 8192 tx).st := rfl
  rw [st_step] at hlast
  have hidle : (nextState simpleChain delegatorState delegatingBlock).db.toStateDb =
      (transactionsOf simpleChain delegatingBlock delegatorState).st.db.toStateDb :=
    toStateDb_endBlock_idle _ rfl (by decide +kernel)
  unfold Progress.succeeds at hsucceeds
  rcases hrun : runTx simpleChain delegatingBlock.cfg.toExecConfig 8192 begun.gasUsed tx begun.st
    with ⟨result, st'⟩
  rw [hrun] at hsucceeds hlast
  rcases runTx_free rfl rfl hrun with ⟨hfailed, -⟩ | ⟨rfl, hok⟩
  · cases result <;> first | exact absurd rfl hfailed | cases hsucceeds
  · obtain ⟨db, hexec, rfl⟩ : ∃ db, executeDelegate 8192 ⟨addressOf 1, 7, 60, 0⟩ begun.st.db =
        (.ok (), db) ∧ st' = { begun.st with db := db } := onLedger_eq hok
    obtain ⟨-, -, rfl⟩ := executeDelegate_ok hexec
    refine ⟨nodup_singleton _, ?_⟩
    intro a
    rw [hidle, hlast, mem_singleton]
    have hdb : begun.st.db.toStateDb = delegatorState.db.toStateDb :=
      (beginBlock_keeps delegatingBlock.block delegatorState).1
    rw [toStateDb_putDelegation, toStateDb_updateAccount, hdb, StateDb.accounts_updateAccount]
    split_ifs with ha
    · simp [ha]
    · rw [accounts_delegatorState]

lemma listsAccounts_delegatorState : ListsAccounts delegatorState.db [addressOf 1] :=
  ⟨nodup_singleton _, fun a => by rw [mem_singleton, accounts_delegatorState]⟩

/-- Over two half-lives the total may shrink by what is delegated. -/
theorem audit_clean_iff_decayed :
    ValueBlock simpleChain delegatorState delegatingBlock ∧
      blockInto simpleChain delegatorState delegatingBlock ≤
        blockOut simpleChain delegatorState delegatingBlock := by
  refine ⟨valueBlock_delegating, ?_⟩
  have hclean := @audit_clean_iff _ _ simpleChain delegatorState delegatingBlock
    ⟨some 0, [addressOf 1], [addressOf 1]⟩ valueBlock_delegating listsAccounts_delegatorState
    listsAccounts_delegating
  exact (hclean.mp (by decide +kernel)).1

/-- Right after an audit the same block is an alarm. -/
theorem delegation_alarms :
    ValueBlock simpleChain delegatorState delegatingBlock ∧
      ListsAccounts delegatorState.db [addressOf 1] ∧
      ListsAccounts (nextState simpleChain delegatorState delegatingBlock).db [addressOf 1] ∧
      lastConservationAudit simpleChain ⟨none, [addressOf 1], [addressOf 1]⟩ delegatorState
        delegatingBlock = .ok (.error (.decayExceededLambda 105 45 0 0 4096)) :=
  ⟨valueBlock_delegating, listsAccounts_delegatorState, listsAccounts_delegating,
    by decide +kernel⟩

end

end Simple

end EvaporChain
