import EvaporChain.Execution.Rollback

/-!
# Delegations

A delegator's money is its balance and what its delegation records hold. Delegating, undelegating
and claiming only move it between the three places, and a claim pays exactly what was undelegated
since the last one, after the unbonding period.
-/

namespace EvaporChain

open Core DelegationRecord Dict List StateDb

/-! ### Transactions that move value -/

/-- The same balances, stakes and delegations. -/
structure Ledger.SameFunds (db db' : Ledger) : Prop where
  balance : ∀ a, (db'.account a).balance = (db.account a).balance
  stakes : db'.stakes = db.stakes
  delegations : db'.delegations = db.delegations

namespace Simple

variable {C S : Type} {env : ChainEnv C S} {cfg : ExecConfig} {epoch : ℕ}

/-- Kinds that move value between balances, stakes and delegations. -/
def movesValue : TxBody → Bool
  | .transfer _ | .validatorStake _ | .validatorExit _ | .validatorClaimStake _
  | .delegate _ | .undelegate _ | .claimDelegation _ => true
  | _ => false

lemma Untouched.sameFunds {db db' : Ledger} (h : Untouched db db') : db.SameFunds db' := by
  have hrecords := h.records
  simp only [Ledger.records, Prod.mk.injEq] at hrecords
  obtain ⟨-, -, -, hstakes, hdelegations, -⟩ := hrecords
  exact ⟨fun a => congrArg Account.balance (h.account a), hstakes, hdelegations⟩

lemma NonceFailure.sameFunds {f : Account → Account} (hf : ∀ acct, (f acct).balance = acct.balance)
    {addr : AccountAddress} {n : ℕ} {db db' : Ledger} (h : NonceFailure f addr n db db') :
    db.SameFunds db' := by
  cases h with
  | wrong _ untouched => exact untouched.sameFunds
  | used _ db_eq =>
    subst db_eq
    refine ⟨?_, rfl, rfl⟩
    intro a
    rw [Ledger.toStateDb_updateAccount, account_updateAccount]
    split_ifs with ha
    · rw [ha]
      exact hf _
    · rfl

/-- A handler that fails moves nothing. -/
lemma sameFunds_dispatch {tx : Transaction} (hmoves : movesValue tx.body) {st st' : ChainState C S}
    {e : ExecutionError} (h : dispatch env cfg epoch tx st = (.error e, st')) :
    st' = { st with db := st'.db } ∧ st.db.SameFunds st'.db := by
  have hbump (acct : Account) : (acct.bumpNonce epoch).balance = acct.balance := rfl
  unfold dispatch at h
  cases hbody : tx.body <;> simp only [hbody] at h hmoves
  all_goals first
    | cases hmoves; done
    | obtain ⟨_, hdb, rfl⟩ := onLedger_eq h
      refine ⟨rfl, ?_⟩
  case transfer => exact (executeTransfer_error hdb).sameFunds
  case validatorStake => exact (executeValidatorStake_error hdb).sameFunds
  case validatorExit => exact (executeValidatorExit_error hdb).sameFunds hbump
  case validatorClaimStake => exact (executeValidatorClaimStake_error hdb).sameFunds
  case delegate => exact (executeDelegate_error hdb).sameFunds
  case undelegate =>
    rcases executeUndelegate_error hdb with ⟨-, rfl⟩ | ⟨-, hfailure⟩
    · exact ⟨fun _ => rfl, rfl, rfl⟩
    · exact hfailure.sameFunds hbump
  case claimDelegation => exact (executeClaimDelegation_error hdb).sameFunds hbump

/-- Rollback gives the sender the balance it still has. -/
lemma sameFunds_revertSender (tx : Transaction) {db db' : Ledger} (h : db.SameFunds db') :
    db.SameFunds (revertSender tx (senderSnapshot tx db) db') := by
  have hrecords := records_revertSender tx (senderSnapshot tx db) db'
  simp only [Ledger.records, Prod.mk.injEq] at hrecords
  obtain ⟨-, -, -, hstakes, hdelegations, -⟩ := hrecords
  refine ⟨?_, hstakes.trans h.stakes, hdelegations.trans h.delegations⟩
  intro a
  rw [account_revertSender]
  split_ifs
  · rfl
  · exact h.balance a

/-- Without fees, a transaction that moves value does what its handler does, or nothing. -/
lemma runTx_free {tx : Transaction} (hmoves : movesValue tx.body) (hfree : cfg.feeController = none)
    {gasUsed : ℕ} {st st' : ChainState C S} {result : TxResult}
    (h : runTx env cfg epoch gasUsed tx st = (result, st')) :
    (result ≠ .done ∧ st' = { st with db := st'.db } ∧ st.db.SameFunds st'.db) ∨
      (result = .done ∧ dispatch env cfg epoch tx st = (.ok (), st')) := by
  have hfee : deductFee env cfg epoch tx st.db = (.ok (), st.db) := by
    rw [deductFee, chargeFee, hfree]
  cases txRun_of_runTx h with
  | refused error => exact .inl ⟨by simp, rfl, fun _ => rfl, rfl, rfl⟩
  | unpaid fee =>
    rw [hfee] at fee
    cases fee
  | failed fee failure =>
    rw [hfee] at fee
    cases fee
    obtain ⟨hengines, hfunds⟩ := sameFunds_dispatch hmoves failure
    refine .inl ⟨by simp, ?_, sameFunds_revertSender tx hfunds⟩
    rw [hengines]
  | done fee success =>
    rw [hfee] at fee
    cases fee
    exact .inr ⟨rfl, success⟩

end Simple

/-! ### What a delegator holds -/

abbrev DelegationRecord.key (record : DelegationRecord) : AccountAddress × ℕ :=
  (record.delegator, record.validatorId)

def DelegationRecord.held (record : DelegationRecord) : ℕ := record.amount + record.unbondingAmount

def delegatedFrom (a : AccountAddress) (key : AccountAddress × ℕ) (record : DelegationRecord) : ℕ :=
  if key.1 = a then record.held else 0

def Ledger.heldAt (db : Ledger) (key : AccountAddress × ℕ) : ℕ :=
  db.delegations.share (fun _ => DelegationRecord.held) key

/-- Balance and delegation records of an account. -/
def Ledger.holdings (db : Ledger) (a : AccountAddress) : ℕ :=
  (db.account a).balance + db.delegations.sum (delegatedFrom a)

namespace Ledger

lemma SameFunds.holdings {db db' : Ledger} (h : db.SameFunds db') (a : AccountAddress) :
    db'.holdings a = db.holdings a := by
  rw [Ledger.holdings, h.balance, h.delegations, Ledger.holdings]

lemma share_delegatedFrom (db : Ledger) (a : AccountAddress) (key : AccountAddress × ℕ) :
    db.delegations.share (delegatedFrom a) key = if key.1 = a then db.heldAt key else 0 := by
  unfold heldAt
  cases h : db.delegations.lookup key with
  | none => simp [share_of_none h]
  | some record => simp [share_of_some h, delegatedFrom]

lemma heldAt_of_some {db : Ledger} {key : AccountAddress × ℕ} {record : DelegationRecord}
    (h : db.delegations.lookup key = some record) : db.heldAt key = record.held := share_of_some h

/-- What a record holds is at most what its delegator does. -/
lemma heldAt_le_holdings (db : Ledger) (key : AccountAddress × ℕ) :
    (db.account key.1).balance + db.heldAt key ≤ db.holdings key.1 := by
  have hshare := share_le_sum (delegatedFrom key.1) db.delegations key
  rw [share_delegatedFrom, if_pos rfl] at hshare
  exact Nat.add_le_add_left hshare _

lemma balance_add_le_holdings {db : Ledger} {a : AccountAddress} {validatorId : ℕ}
    {record : DelegationRecord} (h : db.delegations.lookup (a, validatorId) = some record) :
    (db.account a).balance + (record.amount + record.unbondingAmount) ≤ db.holdings a := by
  have hroom := db.heldAt_le_holdings (a, validatorId)
  rwa [heldAt_of_some h] at hroom

/-- One delegator moves money between its balance and one of its records. -/
structure Moves (key : AccountAddress × ℕ) (out into : ℕ) (db db' : Ledger) : Prop where
  others : ∀ a ≠ key.1, (db'.account a).balance = (db.account a).balance
  balance : (db'.account key.1).balance + out = (db.account key.1).balance + into
  held : db'.heldAt key + into = db.heldAt key + out
  sum : ∀ f, db'.delegations.sum f + db.delegations.share f key =
    db.delegations.sum f + db'.delegations.share f key
  stakes : db'.stakes = db.stakes

variable {key : AccountAddress × ℕ}

/-- What is moved stays in the delegator's hands. -/
lemma Moves.holdings {db db' : Ledger} {out into : ℕ} (h : Moves key out into db db')
    (a : AccountAddress) : db'.holdings a = db.holdings a := by
  have hrecords := h.sum (delegatedFrom a)
  rw [share_delegatedFrom, share_delegatedFrom] at hrecords
  unfold Ledger.holdings
  by_cases ha : key.1 = a
  · have hbalance := h.balance
    have hheld := h.held
    rw [if_pos ha, if_pos ha] at hrecords
    rw [ha] at hbalance
    omega
  · rw [if_neg ha, if_neg ha] at hrecords
    rw [h.others a (Ne.symm ha)]
    omega

lemma lookup_putDelegation (db : Ledger) (record : DelegationRecord)
    (hkey : record.key = key) (k : AccountAddress × ℕ) :
    (db.putDelegation record).delegations.lookup k =
      if k = key then some record else db.delegations.lookup k := by
  subst hkey
  exact lookup_insert_apply _ _ _ _

/-- Change the balance of a delegator and write one of its records. -/
lemma moves_putDelegation {db : Ledger} {f : Account → Account} {record : DelegationRecord}
    {out into : ℕ} (hkey : record.key = key)
    (hbalance : (f (db.account key.1)).balance + out = (db.account key.1).balance + into)
    (hheld : record.held + into = db.heldAt key + out) :
    Moves key out into db ((db.updateAccount key.1 f).putDelegation record) := by
  have hlookup : ((db.updateAccount key.1 f).putDelegation record).delegations.lookup key =
      some record := by
    rw [lookup_putDelegation _ _ hkey, if_pos rfl]
  refine ⟨?_, ?_, ?_, ?_, rfl⟩
  · intro b hb
    rw [toStateDb_putDelegation, toStateDb_updateAccount, account_updateAccount_of_ne _ hb]
  · rw [toStateDb_putDelegation, toStateDb_updateAccount, account_updateAccount_self]
    exact hbalance
  · rw [heldAt, share_of_some hlookup]
    exact hheld
  · intro g
    rw [share_of_some hlookup]
    subst hkey
    exact sum_insert g db.delegations _ record

end Ledger

namespace Simple

variable {C S : Type} {env : ChainEnv C S} {cfg : ExecConfig} {epoch : ℕ} {db db' : Ledger}

lemma key_delegationOf (epoch : ℕ) (tx : DelegateTx) (db : Ledger) :
    (delegationOf epoch tx (db.delegations.lookup (tx.delegator, tx.validatorId))).key =
      (tx.delegator, tx.validatorId) := by
  cases hrecord : db.delegations.lookup (tx.delegator, tx.validatorId) with
  | none => rfl
  | some record => exact db.delegations_keyed _ record hrecord

/-- The record of a delegation is the old one with the amount added. -/
lemma held_delegationOf (epoch : ℕ) (tx : DelegateTx) (db : Ledger)
    (hfits : db.heldAt (tx.delegator, tx.validatorId) + tx.amount ≤ u64Max) :
    (delegationOf epoch tx (db.delegations.lookup (tx.delegator, tx.validatorId))).held =
      db.heldAt (tx.delegator, tx.validatorId) + tx.amount := by
  unfold Ledger.heldAt at hfits ⊢
  cases hrecord : db.delegations.lookup (tx.delegator, tx.validatorId) with
  | none =>
    rw [share_of_none hrecord]
    exact (add_zero _).trans (zero_add _).symm
  | some record =>
    rw [share_of_some hrecord] at hfits ⊢
    simp only [delegationOf, held, satAdd] at hfits ⊢
    omega

section

variable {key : AccountAddress × ℕ}
  (hfits : (db.account key.1).balance + db.heldAt key ≤ u64Max)
include hfits

lemma moves_executeDelegate {tx : DelegateTx} (h : executeDelegate epoch tx db = (.ok (), db'))
    (hkey : (tx.delegator, tx.validatorId) = key) : Ledger.Moves key tx.amount 0 db db' := by
  subst hkey
  obtain ⟨-, hle, rfl⟩ := executeDelegate_ok h
  have hbalance := hle.trans (Account.transferableBalance_le _ _)
  have hheld := held_delegationOf epoch tx db (by dsimp only at hfits; omega)
  refine Ledger.moves_putDelegation (key_delegationOf epoch tx db) ?_ hheld
  exact Nat.sub_add_cancel hbalance

lemma moves_executeUndelegate {tx : UndelegateTx}
    (h : executeUndelegate epoch tx db = (.ok (), db'))
    (hkey : (tx.delegator, tx.validatorId) = key) : Ledger.Moves key 0 0 db db' := by
  subst hkey
  obtain ⟨-, record, hrecord, hle, rfl⟩ := executeUndelegate_ok h
  have hkey : (record.unbond tx.amount epoch).key = (tx.delegator, tx.validatorId) :=
    db.delegations_keyed _ record hrecord
  refine Ledger.moves_putDelegation hkey rfl ?_
  rw [Ledger.heldAt_of_some hrecord] at hfits ⊢
  simp only [unbond, held, satAdd] at hfits ⊢
  omega

end

/-- The account of a claim after it was paid. -/
lemma balance_claimed (db : Ledger) (addr : AccountAddress) (amount : ℕ) (a : AccountAddress) :
    (((db.updateAccount addr (·.bumpNonce epoch)).adjustAccount addr
        (·.credit amount epoch)).account a).balance =
      if a = addr then satAdd (db.account addr).balance amount else (db.account a).balance := by
  have hsome : ((db.toStateDb.updateAccount addr (·.bumpNonce epoch)).accounts addr).isSome := by
    simp [accounts_updateAccount]
  rw [Ledger.toStateDb_adjustAccount, Ledger.toStateDb_updateAccount, account_adjustAccount]
  by_cases ha : a = addr
  · rw [if_pos ⟨ha, hsome⟩, if_pos ha, account_updateAccount_self]
    rfl
  · rw [if_neg fun h => ha h.1, if_neg ha, account_updateAccount_of_ne _ ha]

/-- A claim that succeeds comes after the unbonding period, and empties what was unbonding. -/
lemma executeClaimDelegation_spec {tx : ClaimDelegationTx}
    (h : executeClaimDelegation epoch tx db = (.ok (), db')) :
    ∃ record unbondingStarted,
      db.delegations.lookup (tx.delegator, tx.validatorId) = some record ∧
      record.unbondingEpoch = some unbondingStarted ∧
      satAdd unbondingStarted unbondingPeriodEpochs ≤ epoch ∧
      (∀ a, (db'.account a).balance =
        if a = tx.delegator then satAdd (db.account tx.delegator).balance record.unbondingAmount
        else (db.account a).balance) ∧
      (∀ key ≠ (tx.delegator, tx.validatorId),
        db'.delegations.lookup key = db.delegations.lookup key) ∧
      (record.amount = 0 ∧ db'.delegations = db.delegations.erase (tx.delegator, tx.validatorId) ∨
        db'.delegations = db.delegations.insert (tx.delegator, tx.validatorId) record.release) := by
  obtain ⟨-, record, hrecord, ⟨unbondingStarted, hstarted, hready⟩, hpaid⟩ :=
    executeClaimDelegation_ok h
  have hkey : record.release.key = (tx.delegator, tx.validatorId) :=
    db.delegations_keyed _ record hrecord
  refine ⟨record, unbondingStarted, hrecord, hstarted, hready, ?_⟩
  rcases hpaid with ⟨hzero, rfl⟩ | rfl
  · refine ⟨fun a => ?_, fun key hne => ?_, .inl ⟨hzero, rfl⟩⟩
    · exact balance_claimed db tx.delegator record.unbondingAmount a
    · exact (lookup_erase_apply _ _ _).trans (if_neg hne)
  · refine ⟨fun a => ?_, fun key hne => ?_, .inr ?_⟩
    · exact balance_claimed db tx.delegator record.unbondingAmount a
    · exact (lookup_insert_apply _ _ _ _).trans (if_neg fun heq => hne (heq.trans hkey))
    · exact congrArg (fun key => db.delegations.insert key record.release) hkey

lemma moves_executeClaimDelegation {tx : ClaimDelegationTx} {record : DelegationRecord}
    (h : executeClaimDelegation epoch tx db = (.ok (), db'))
    (hrecord : db.delegations.lookup (tx.delegator, tx.validatorId) = some record)
    (hfits : (db.account tx.delegator).balance + db.heldAt (tx.delegator, tx.validatorId) ≤
      u64Max) : Ledger.Moves (tx.delegator, tx.validatorId) 0 record.unbondingAmount db db' := by
  have hstakes : db'.stakes = db.stakes := by
    obtain ⟨-, _, -, -, ⟨-, rfl⟩ | rfl⟩ := executeClaimDelegation_ok h <;> rfl
  obtain ⟨_, -, hsame, -, -, hbalance, -, hrecords⟩ := executeClaimDelegation_spec h
  rw [hrecord] at hsame
  cases hsame
  rw [Ledger.heldAt_of_some hrecord] at hfits
  refine ⟨fun b hb => by rw [hbalance, if_neg hb], ?_, ?_, ?_, hstakes⟩
  · rw [hbalance, if_pos rfl]
    simp only [held, satAdd] at hfits ⊢
    omega
  · rw [Ledger.heldAt_of_some hrecord, Ledger.heldAt]
    rcases hrecords with ⟨hzero, hrecords⟩ | hrecords
    · rw [hrecords, share_of_none (AList.lookup_erase _ _), held, hzero, add_zero]
    · rw [hrecords, share_of_some (AList.lookup_insert _)]
      rfl
  · intro f
    rcases hrecords with ⟨-, hrecords⟩ | hrecords
    · rw [hrecords, share_of_none (AList.lookup_erase _ _)]
      exact sum_erase f db.delegations _
    · rw [hrecords, share_of_some (AList.lookup_insert _)]
      exact sum_insert f db.delegations _ _

/-! ### Runs -/

/-- A transaction with the settings and the place in its block it is executed under. -/
structure TxCall where
  cfg : ExecConfig
  epoch : ℕ
  gasUsed : ℕ
  tx : Transaction

namespace TxCall

variable (env : ChainEnv C S)

def next (st : ChainState C S) (call : TxCall) : ChainState C S :=
  (runTx env call.cfg call.epoch call.gasUsed call.tx st).2

def succeeds (st : ChainState C S) (call : TxCall) : Bool :=
  match (runTx env call.cfg call.epoch call.gasUsed call.tx st).1 with
  | .done => true
  | _ => false

/-- One of the three transactions about delegations, free of fees. -/
def OnDelegations (call : TxCall) : Prop :=
  call.cfg.feeController = none ∧
    match call.tx.body with
    | .delegate _ | .undelegate _ | .claimDelegation _ => True
    | _ => False

end TxCall

/-- An amount taken out of a delegation, with the epoch of the transaction. -/
structure Undelegation where
  amount : ℕ
  epoch : ℕ
deriving DecidableEq

/-- What the record under a key was taken out of before a run. -/
def unbondingBefore (key : AccountAddress × ℕ) (db : Ledger) : List Undelegation :=
  match db.delegations.lookup key with
  | some record => [⟨record.unbondingAmount, record.unbondingEpoch.getD 0⟩]
  | none => []

/-- What is unclaimed of a record after one more transaction. -/
def claimStep (env : ChainEnv C S) (key : AccountAddress × ℕ) (lots : List Undelegation)
    (x : ChainState C S × TxCall) : List Undelegation :=
  if x.2.succeeds env x.1 then
    match x.2.tx.body with
    | .undelegate tx =>
      if (tx.delegator, tx.validatorId) = key then lots ++ [⟨tx.amount, x.2.epoch⟩] else lots
    | .claimDelegation tx => if (tx.delegator, tx.validatorId) = key then [] else lots
    | _ => lots
  else lots

/-- The undelegations of a record that no claim has paid out yet. -/
def unclaimed (env : ChainEnv C S) (key : AccountAddress × ℕ) (st : ChainState C S)
    (calls : List TxCall) : List Undelegation :=
  (trace (TxCall.next env) st calls).foldl (claimStep env key) (unbondingBefore key st.db)

/-- A run of delegations, undelegations and claims: epochs do not decrease, also not those of the
records at the start, and neither a delegator's money nor an end of unbonding leaves its range. -/
structure DelegationRun (st : ChainState C S) (calls : List TxCall) : Prop where
  kinds : ∀ call ∈ calls, call.OnDelegations
  ordered : (calls.map TxCall.epoch).Pairwise (· ≤ ·)
  started : ∀ key record epoch, st.db.delegations.lookup key = some record →
    record.unbondingEpoch = some epoch →
      epoch + unbondingPeriodEpochs ≤ u64Max ∧ ∀ call ∈ calls, epoch ≤ call.epoch
  horizon : ∀ call ∈ calls, ∀ tx, call.tx.body = .undelegate tx →
    call.epoch + unbondingPeriodEpochs ≤ u64Max
  fits : ∀ a, st.db.holdings a ≤ u64Max

section Runs

variable {st : ChainState C S} {call : TxCall} {key : AccountAddress × ℕ} {lots : List Undelegation}

/-- A call fails and moves nothing, or its handler succeeds. -/
lemma TxCall.next_cases (env : ChainEnv C S) (st : ChainState C S) (h : call.OnDelegations) :
    (call.succeeds env st = false ∧ st.db.SameFunds (call.next env st).db) ∨
      (call.succeeds env st = true ∧
        ((∃ tx, call.tx.body = .delegate tx ∧
            executeDelegate call.epoch tx st.db = (.ok (), (call.next env st).db)) ∨
          (∃ tx, call.tx.body = .undelegate tx ∧
            executeUndelegate call.epoch tx st.db = (.ok (), (call.next env st).db)) ∨
          ∃ tx, call.tx.body = .claimDelegation tx ∧
            executeClaimDelegation call.epoch tx st.db = (.ok (), (call.next env st).db))) := by
  obtain ⟨hfree, hkind⟩ := h
  have hmoves : movesValue call.tx.body := by
    cases hbody : call.tx.body <;> simp only [hbody] at hkind
    all_goals rfl
  unfold succeeds next
  rcases hrun : runTx env call.cfg call.epoch call.gasUsed call.tx st with ⟨result, st'⟩
  rcases runTx_free hmoves hfree hrun with ⟨hfailed, -, hfunds⟩ | ⟨rfl, hok⟩
  · refine .inl ⟨?_, hfunds⟩
    cases result <;> first | rfl | exact absurd rfl hfailed
  · refine .inr ⟨rfl, ?_⟩
    unfold dispatch at hok
    cases hbody : call.tx.body <;> simp only [hbody] at hok hkind
    all_goals obtain ⟨_, hdb, rfl⟩ := onLedger_eq hok
    case delegate => exact .inl ⟨_, rfl, hdb⟩
    case undelegate => exact .inr (.inl ⟨_, rfl, hdb⟩)
    case claimDelegation => exact .inr (.inr ⟨_, rfl, hdb⟩)

lemma TxCall.holdings_next (h : call.OnDelegations) (hfits : ∀ a, st.db.holdings a ≤ u64Max)
    (a : AccountAddress) : (call.next env st).db.holdings a = st.db.holdings a := by
  have hroom (key : AccountAddress × ℕ) :
      (st.db.account key.1).balance + st.db.heldAt key ≤ u64Max :=
    (st.db.heldAt_le_holdings key).trans (hfits key.1)
  rcases call.next_cases env st h with
    ⟨-, hfunds⟩ | ⟨-, ⟨_, -, hdb⟩ | ⟨_, -, hdb⟩ | ⟨_, -, hdb⟩⟩
  · exact hfunds.holdings a
  · exact (moves_executeDelegate (hroom _) hdb rfl).holdings a
  · exact (moves_executeUndelegate (hroom _) hdb rfl).holdings a
  · obtain ⟨-, _, hrecord, -⟩ := executeClaimDelegation_ok hdb
    exact (moves_executeClaimDelegation hdb hrecord (hroom (_, _))).holdings a

/-- A record has what was taken out of it and not claimed, since the last of these times. -/
def Pooled (db : Ledger) (key : AccountAddress × ℕ) (lots : List Undelegation) : Prop :=
  match db.delegations.lookup key with
  | none => lots = []
  | some record => record.unbondingAmount = (lots.map Undelegation.amount).sum ∧
      ∀ epoch, record.unbondingEpoch = some epoch →
        epoch + unbondingPeriodEpochs ≤ u64Max ∧ ∀ lot ∈ lots, lot.epoch ≤ epoch

lemma Pooled.congr (h : Pooled db key lots)
    (hsame : db'.delegations.lookup key = db.delegations.lookup key) : Pooled db' key lots := by
  unfold Pooled at h ⊢
  rwa [hsame]

lemma pooled_executeDelegate {tx : DelegateTx} (h : executeDelegate epoch tx db = (.ok (), db'))
    (hlots : Pooled db key lots) : Pooled db' key lots := by
  obtain ⟨-, -, rfl⟩ := executeDelegate_ok h
  have hkey := key_delegationOf epoch tx db
  unfold Pooled at hlots ⊢
  rw [Ledger.lookup_putDelegation _ _ hkey]
  split_ifs with hk
  · subst hk
    cases hrecord : db.delegations.lookup (tx.delegator, tx.validatorId) with
    | none =>
      simp only [hrecord] at hlots
      subst hlots
      exact ⟨rfl, fun _ hnone => by cases hnone⟩
    | some record =>
      simp only [hrecord] at hlots
      exact hlots
  · exact hlots

lemma pooled_executeUndelegate {tx : UndelegateTx}
    (h : executeUndelegate epoch tx db = (.ok (), db')) (hlots : Pooled db key lots)
    (hfits : db.holdings tx.delegator ≤ u64Max) (hhorizon : epoch + unbondingPeriodEpochs ≤ u64Max)
    (hbefore : ∀ lot ∈ lots, lot.epoch ≤ epoch) :
    Pooled db' key
      (if (tx.delegator, tx.validatorId) = key then lots ++ [⟨tx.amount, epoch⟩] else lots) := by
  obtain ⟨-, record, hrecord, hle, rfl⟩ := executeUndelegate_ok h
  have hkey : (record.unbond tx.amount epoch).key = (tx.delegator, tx.validatorId) :=
    db.delegations_keyed _ record hrecord
  have hlookup := Ledger.lookup_putDelegation
    (db.updateAccount tx.delegator (·.bumpNonce epoch)) _ hkey
  by_cases hk : (tx.delegator, tx.validatorId) = key
  · subst hk
    have hroom := Ledger.balance_add_le_holdings hrecord
    simp only [Pooled, hrecord] at hlots
    simp only [Pooled, hlookup, if_true]
    refine ⟨?_, ?_⟩
    · simp only [unbond, satAdd, map_append, sum_append, map_cons,
        map_nil, sum_cons, sum_nil, ← hlots.1]
      omega
    · rintro _ ⟨⟩
      refine ⟨hhorizon, ?_⟩
      intro lot hlot
      rcases List.mem_append.mp hlot with hlot | hlot
      · exact hbefore lot hlot
      · rw [List.mem_singleton.mp hlot]
  · rw [if_neg hk]
    exact hlots.congr ((hlookup key).trans (if_neg (Ne.symm hk)))

lemma pooled_executeClaimDelegation {tx : ClaimDelegationTx}
    (h : executeClaimDelegation epoch tx db = (.ok (), db')) (hlots : Pooled db key lots) :
    Pooled db' key (if (tx.delegator, tx.validatorId) = key then [] else lots) := by
  obtain ⟨record, -, -, -, -, -, hother, hrecords⟩ := executeClaimDelegation_spec h
  by_cases hk : (tx.delegator, tx.validatorId) = key
  · subst hk
    rw [if_pos rfl]
    unfold Pooled
    rcases hrecords with ⟨-, hrecords⟩ | hrecords
    · rw [hrecords, AList.lookup_erase]
    · rw [hrecords, AList.lookup_insert]
      exact ⟨rfl, fun _ hnone => by cases hnone⟩
  · rw [if_neg hk]
    exact hlots.congr (hother key (Ne.symm hk))

/-- One transaction keeps the books of every record. -/
lemma TxCall.pooled_next (h : call.OnDelegations) (hfits : ∀ a, st.db.holdings a ≤ u64Max)
    (hhorizon : ∀ tx, call.tx.body = .undelegate tx → call.epoch + unbondingPeriodEpochs ≤ u64Max)
    (hbefore : ∀ lot ∈ lots, lot.epoch ≤ call.epoch) (hlots : Pooled st.db key lots) :
    Pooled (call.next env st).db key (claimStep env key lots (st, call)) := by
  unfold claimStep
  rcases call.next_cases env st h with
    ⟨hfails, hfunds⟩ | ⟨hsucceeds, ⟨tx, hbody, hdb⟩ | ⟨tx, hbody, hdb⟩ | ⟨tx, hbody, hdb⟩⟩
  · simp only [hfails]
    exact hlots.congr (congrArg _ hfunds.delegations)
  · simp only [hsucceeds, hbody, if_true]
    exact pooled_executeDelegate hdb hlots
  · simp only [hsucceeds, hbody, if_true]
    exact pooled_executeUndelegate hdb hlots (hfits _) (hhorizon tx hbody) hbefore
  · simp only [hsucceeds, hbody, if_true]
    exact pooled_executeClaimDelegation hdb hlots

lemma unclaimed_concat (env : ChainEnv C S) (key : AccountAddress × ℕ) (st : ChainState C S)
    (calls : List TxCall) (call : TxCall) :
    unclaimed env key st (calls ++ [call]) =
      claimStep env key (unclaimed env key st calls) (run (TxCall.next env) st calls, call) := by
  unfold unclaimed
  rw [trace_concat, foldl_append]
  rfl

/-- A lot is an old one or that of the transaction. -/
lemma epoch_of_mem_claimStep {x : ChainState C S × TxCall} {lot : Undelegation}
    (h : lot ∈ claimStep env key lots x) : lot ∈ lots ∨ lot.epoch = x.2.epoch := by
  unfold claimStep at h
  split_ifs at h
  · split at h
    all_goals try split_ifs at h
    all_goals simp_all
    rcases h with h | rfl <;> simp_all
  · exact .inl h

variable {calls : List TxCall}

/-- Nothing was undelegated after the last epoch. -/
lemma epoch_le_of_mem_unclaimed {now : ℕ}
    (hstart : ∀ lot ∈ unbondingBefore key st.db, lot.epoch ≤ now)
    (hcalls : ∀ call ∈ calls, call.epoch ≤ now) :
    ∀ lot ∈ unclaimed env key st calls, lot.epoch ≤ now := by
  induction calls using List.reverseRecOn with
  | nil => exact hstart
  | append_singleton calls call ih =>
    have hold := ih fun c hc => hcalls c (mem_append_left _ hc)
    have hnew := hcalls call (mem_append_right _ (.head _))
    rw [unclaimed_concat]
    intro lot hlot
    rcases epoch_of_mem_claimStep hlot with hlot | hepoch
    · exact hold lot hlot
    · exact hepoch.trans_le hnew

lemma DelegationRun.of_append {calls' : List TxCall} (h : DelegationRun st (calls ++ calls')) :
    DelegationRun st calls := by
  refine ⟨fun c hc => h.kinds c (mem_append_left _ hc), ?_, ?_,
    fun c hc => h.horizon c (mem_append_left _ hc), h.fits⟩
  · have hordered := h.ordered
    rw [map_append] at hordered
    exact (List.pairwise_append.mp hordered).1
  · intro key record epoch hrecord hepoch
    obtain ⟨hfits, hcalls⟩ := h.started key record epoch hrecord hepoch
    exact ⟨hfits, fun c hc => hcalls c (mem_append_left _ hc)⟩

/-- What is unclaimed when a transaction runs was undelegated by then. -/
lemma DelegationRun.unclaimed_le (h : DelegationRun st (calls ++ [call]))
    (key : AccountAddress × ℕ) :
    ∀ lot ∈ unclaimed env key st calls, lot.epoch ≤ call.epoch := by
  have hlast : call ∈ calls ++ [call] := mem_append_right _ (.head _)
  refine epoch_le_of_mem_unclaimed ?_ ?_
  · intro lot hlot
    unfold unbondingBefore at hlot
    split at hlot
    next record hrecord =>
      rw [List.mem_singleton.mp hlot]
      cases hepoch : record.unbondingEpoch with
      | none => exact Nat.zero_le _
      | some epoch => exact (h.started key record epoch hrecord hepoch).2 call hlast
    next => cases hlot
  · intro c hc
    have hordered := h.ordered
    rw [map_append] at hordered
    exact (List.pairwise_append.mp hordered).2.2 _ (mem_map_of_mem hc) _ (by simp)

/-- The books of a whole run. -/
lemma DelegationRun.pooled (env : ChainEnv C S) (h : DelegationRun st calls) :
    (∀ a, (run (TxCall.next env) st calls).db.holdings a = st.db.holdings a) ∧
      ∀ key, Pooled (run (TxCall.next env) st calls).db key (unclaimed env key st calls) := by
  induction calls using List.reverseRecOn with
  | nil =>
    refine ⟨fun _ => rfl, fun key => ?_⟩
    unfold Pooled unclaimed unbondingBefore
    cases hrecord : st.db.delegations.lookup key with
    | none =>
      simp [trace, hrecord]
    | some record =>
      simp only [run_nil, hrecord, trace, foldl_nil]
      refine ⟨by simp, ?_⟩
      intro epoch hepoch
      refine ⟨(h.started key record epoch hrecord hepoch).1, ?_⟩
      intro lot hlot
      rw [List.mem_singleton.mp hlot, hepoch, Option.getD_some]
  | append_singleton calls call ih =>
    have hlast : call ∈ calls ++ [call] := mem_append_right _ (.head _)
    obtain ⟨hholdings, hpooled⟩ := ih h.of_append
    have hfits (a : AccountAddress) : (run (TxCall.next env) st calls).db.holdings a ≤ u64Max :=
      (hholdings a).trans_le (h.fits a)
    rw [run_concat]
    refine ⟨fun a => (call.holdings_next (h.kinds call hlast) hfits a).trans (hholdings a), ?_⟩
    intro key
    rw [unclaimed_concat]
    exact call.pooled_next (h.kinds call hlast) hfits (h.horizon call hlast)
      (h.unclaimed_le key) (hpooled key)

/-- In a run of delegations every delegator keeps its money, and a claim pays what was undelegated
and not claimed, each unit of it at least one unbonding period later. -/
theorem delegation_ledger (env : ChainEnv C S) {st : ChainState C S} {calls : List TxCall}
    (h : DelegationRun st calls) :
    (∀ a, (run (TxCall.next env) st calls).db.holdings a = st.db.holdings a) ∧
      ∀ earlier call later tx, calls = earlier ++ call :: later →
        call.tx.body = .claimDelegation tx →
        call.succeeds env (run (TxCall.next env) st earlier) →
          let before := run (TxCall.next env) st earlier
          let lots := unclaimed env (tx.delegator, tx.validatorId) st earlier
          ((call.next env before).db.account tx.delegator).balance =
              (before.db.account tx.delegator).balance + (lots.map Undelegation.amount).sum ∧
            ∀ lot ∈ lots, lot.epoch + unbondingPeriodEpochs ≤ call.epoch := by
  refine ⟨(h.pooled env).1, ?_⟩
  intro earlier call later tx hcalls hbody hsucceeds before lots
  subst hcalls
  obtain ⟨hholdings, hpooled⟩ := h.of_append.pooled env
  have hkind := h.kinds call (mem_append_right _ (.head _))
  obtain ⟨hfails, -⟩ | ⟨-, ⟨_, hother, -⟩ | ⟨_, hother, -⟩ | ⟨_, hclaim, hdb⟩⟩ :=
    call.next_cases env before hkind
  · rw [hfails] at hsucceeds
    cases hsucceeds
  · rw [hbody] at hother
    cases hother
  · rw [hbody] at hother
    cases hother
  · rw [hbody] at hclaim
    cases hclaim
    obtain ⟨record, unbondingStarted, hrecord, hstarted, hready, hbalance, -⟩ :=
      executeClaimDelegation_spec hdb
    have hlots : Pooled before.db (tx.delegator, tx.validatorId) lots := hpooled _
    simp only [Pooled, hrecord] at hlots
    obtain ⟨hfits, hepochs⟩ := hlots.2 unbondingStarted hstarted
    refine ⟨?_, ?_⟩
    · -- the claim does not saturate: balance and record are the delegator's
      have hroom := Ledger.balance_add_le_holdings hrecord
      have hmax : before.db.holdings tx.delegator ≤ u64Max :=
        (hholdings tx.delegator).trans_le (h.fits tx.delegator)
      rw [hbalance, if_pos rfl, satAdd]
      omega
    · intro lot hlot
      have hle := hepochs lot hlot
      simp only [satAdd] at hready
      omega

/-- Two undelegations from one record, and a claim once the second of them is old enough. -/
def pooledClaims : List TxCall :=
  let config : ExecConfig := { verifySignatures := false, feeController := none, chainId := [] }
  [⟨config, 10, 0, unsignedTx (.delegate ⟨addressOf 1, 7, 60, 0⟩)⟩,
    ⟨config, 20, 0, unsignedTx (.undelegate ⟨addressOf 1, 7, 10, 1⟩)⟩,
    ⟨config, 30, 0, unsignedTx (.undelegate ⟨addressOf 1, 7, 50, 2⟩)⟩,
    ⟨config, 280, 0, unsignedTx (.claimDelegation ⟨addressOf 1, 7, 3⟩)⟩,
    ⟨config, 286, 0, unsignedTx (.claimDelegation ⟨addressOf 1, 7, 3⟩)⟩]

def delegatorState : ChainState Unit Unit :=
  freshState ((Ledger.empty.fund (addressOf 1) 100).putStake ⟨7, addressOf 2, 5, 0, none, 0⟩)

lemma delegationRun_pooledClaims : DelegationRun delegatorState pooledClaims where
  kinds := by simp [pooledClaims, TxCall.OnDelegations, unsignedTx]
  ordered := by decide
  started := by
    intro key record epoch hrecord
    simp [delegatorState, freshState, Ledger.putStake, Ledger.fund, Ledger.updateAccount,
      Ledger.empty] at hrecord
  horizon := by simp [pooledClaims, unbondingPeriodEpochs, u64Max]
  fits := by
    intro a
    have hnone : delegatorState.db.delegations.sum (delegatedFrom a) = 0 := rfl
    have hbalance : (delegatorState.db.account a).balance = if a = addressOf 1 then 100 else 0 := by
      simp only [delegatorState, freshState, Ledger.fund, Ledger.toStateDb_putStake,
        Ledger.toStateDb_updateAccount, account_updateAccount]
      split_ifs <;> rfl
    rw [Ledger.holdings, hnone, hbalance]
    split_ifs <;> decide

theorem delegation_ledger_pooledClaims :
    DelegationRun delegatorState pooledClaims ∧
      (run (TxCall.next simpleChain) delegatorState pooledClaims).db.holdings (addressOf 1) =
        delegatorState.db.holdings (addressOf 1) ∧
      unclaimed simpleChain (addressOf 1, 7) delegatorState (pooledClaims.take 4) =
        [⟨10, 20⟩, ⟨50, 30⟩] ∧
      ∀ lot ∈ unclaimed simpleChain (addressOf 1, 7) delegatorState (pooledClaims.take 4),
        lot.epoch + unbondingPeriodEpochs ≤ 286 := by
  obtain ⟨hholdings, hclaims⟩ := delegation_ledger simpleChain delegationRun_pooledClaims
  refine ⟨delegationRun_pooledClaims, hholdings _, by decide +kernel, ?_⟩
  exact (hclaims (pooledClaims.take 4) _ [] ⟨addressOf 1, 7, 3⟩ rfl rfl (by decide +kernel)).2

end Runs

end Simple

end EvaporChain
