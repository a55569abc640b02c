import EvaporChain.Execution.PhaseEffects
import EvaporChain.Execution.Signable

/-!
# What transactions keep

No transaction takes a nonce back, and only transactions about stakes change a stake record. Most of
them write nothing but accounts, stakes and delegations.
-/

namespace EvaporChain

open Core

variable {C S β : Type}

/-! ### Nonces -/

/-- A transaction that uses the nonce `n` takes no nonce back, unless `n` is the last one. -/
def Ledger.NonceGrows (n : ℕ) (db db' : Ledger) : Prop :=
  n < u64Max → ∀ a, (db.account a).nonce ≤ u64Max →
    (db.account a).nonce ≤ (db'.account a).nonce ∧ (db'.account a).nonce ≤ u64Max

/-- It also leaves stake records alone. -/
structure Ledger.Advances (n : ℕ) (db db' : Ledger) : Prop where
  nonce : Ledger.NonceGrows n db db'
  stakes : db'.stakes = db.stakes

/-- The same of one account. -/
def Account.NonceGrows (n : ℕ) (acct acct' : Account) : Prop :=
  n < u64Max → acct.nonce ≤ u64Max → acct.nonce ≤ acct'.nonce ∧ acct'.nonce ≤ u64Max

/-- The writes of a transaction that uses the nonce `n`. -/
abbrev Ledger.Uses (n : ℕ) (staking : Bool) : Ledger → Ledger → Prop :=
  Ledger.Writes (Account.NonceGrows n) staking

@[simp] lemma Account.nonce_lockDeposit (acct : Account) (bytes epoch : ℕ) :
    (acct.lockDeposit bytes epoch).nonce = acct.nonce := by
  simp [lockDeposit]

lemma Account.nonce_bumpNonce {acct : Account} (epoch : ℕ) (h : acct.nonce < u64Max) :
    (acct.bumpNonce epoch).nonce = acct.nonce + 1 := by
  simp only [bumpNonce]
  unfold u64Max at h
  omega

lemma Account.nonce_saturateNonce {acct : Account} (epoch : ℕ) (h : acct.nonce < u64Max) :
    (acct.saturateNonce epoch).nonce = acct.nonce + 1 := by
  simp only [saturateNonce, satAdd]
  omega

namespace Account.NonceGrows

variable {n : ℕ} {acct acct' : Account}

lemma of_same (h : acct'.nonce = acct.nonce) : NonceGrows n acct acct' := by
  intro _ hle
  rw [h]
  exact ⟨le_rfl, hle⟩

lemma of_bump (hn : acct.nonce = n) (h : acct'.nonce = (acct.nonce + 1) % 2 ^ 64) :
    NonceGrows n acct acct' := by
  intro hlt _
  unfold u64Max at *
  omega

lemma of_saturate (h : acct'.nonce = satAdd acct.nonce 1) : NonceGrows n acct acct' := by
  intro _ hle
  unfold satAdd at h
  omega

end Account.NonceGrows

namespace Ledger

variable {n : ℕ} {staking : Bool} {db db' db'' : Ledger}

lemma NonceGrows.trans (h : NonceGrows n db db') (h' : NonceGrows n db' db'') :
    NonceGrows n db db'' := by
  intro hn a ha
  have hfirst := h hn a ha
  have hsecond := h' hn a hfirst.2
  exact ⟨hfirst.1.trans hsecond.1, hsecond.2⟩

lemma NonceGrows.of_quiet (h : Ledger.Quiet db db') : NonceGrows n db db' :=
  fun hn a => Account.NonceGrows.of_same (h.nonce a) hn

lemma Writes.nonceGrows (h : db.Uses n staking db') : NonceGrows n db db' := by
  intro hn a
  refine h.account (fun _ => .of_same rfl) (fun _ _ _ hxy hyz hn hx => ?_) a hn
  exact ⟨(hxy hn hx).1.trans (hyz hn (hxy hn hx).2).1, (hyz hn (hxy hn hx).2).2⟩

lemma Writes.advances (h : db.Uses n false db') : Ledger.Advances n db db' :=
  ⟨h.nonceGrows, h.stakes⟩

lemma Advances.of_quiet (h : Ledger.Quiet db db') : Ledger.Advances n db db' :=
  ⟨.of_quiet h, h.stakes⟩

end Ledger

namespace Simple

/-! ### Handlers -/

section Handlers

variable {epoch n : ℕ} {staking : Bool} {db db' : Ledger}

lemma Untouched.uses (h : Untouched db db') : db.Uses n staking db' := by
  obtain ⟨addrs, rfl⟩ := h
  exact .foldl (fun db addr => .updateAccount db addr (.of_same rfl)) addrs db

lemma NonceFailure.uses {addr : AccountAddress}
    (h : NonceFailure (·.bumpNonce epoch) addr n db db') :
    db.Uses n staking db' := by
  cases h with
  | wrong _ untouched => exact untouched.uses
  | used eq db_eq => exact db_eq ▸ .updateAccount _ _ (.of_bump eq rfl)

lemma Untouched.part_eq {part : Ledger → β} (h : Untouched db db') (hpart : Ledger.Apart part) :
    part db' = part db := by
  have huses : db.Uses 0 false db' := h.uses
  exact huses.part_eq hpart

lemma NonceFailure.part_eq {part : Ledger → β} {addr : AccountAddress}
    (h : NonceFailure (·.bumpNonce epoch) addr n db db') (hpart : Ledger.Apart part) :
    part db' = part db := by
  have huses : db.Uses n false db' := h.uses
  exact huses.part_eq hpart

lemma uses_executeTransfer (tx : TransferTx) (db : Ledger) :
    db.Uses tx.nonce false (executeTransfer epoch tx db).2 := by
  rcases h : executeTransfer epoch tx db with ⟨_ | _, db'⟩
  · exact (executeTransfer_error h).uses
  · obtain ⟨-, -, hnonce, -, rfl⟩ := executeTransfer_ok h
    refine .trans (.updateAccount _ _ ?_) (.updateAccount _ _ (.of_same rfl))
    unfold payTransfer
    split_ifs with hzero
    · exact .of_same rfl
    · exact .of_bump (hnonce.resolve_left hzero) rfl

lemma uses_executeRefund (tx : RefundTx) (db : Ledger) :
    db.Uses n false (executeRefund epoch tx db).2 := by
  rcases h : executeRefund epoch tx db with ⟨_ | _, db'⟩
  · exact (executeRefund_error h).uses
  · simp only [executeRefund] at h
    split_ifs at h <;> cases h
    exact .trans (.updateAccount _ _ (.of_same rfl)) (.updateAccount _ _ (.of_same rfl))

lemma uses_executeDelegate (tx : DelegateTx) (db : Ledger) :
    db.Uses tx.nonce false (executeDelegate epoch tx db).2 := by
  rcases h : executeDelegate epoch tx db with ⟨_ | _, db'⟩
  · exact (executeDelegate_error h).uses
  · obtain ⟨hnonce, -, rfl⟩ := executeDelegate_ok h
    exact .trans (.updateAccount _ _ (.of_bump hnonce rfl)) (.putDelegation ..)

lemma uses_executeUndelegate (tx : UndelegateTx) (db : Ledger) :
    db.Uses tx.nonce false (executeUndelegate epoch tx db).2 := by
  rcases h : executeUndelegate epoch tx db with ⟨_ | _, db'⟩
  · rcases executeUndelegate_error h with ⟨-, rfl⟩ | ⟨-, hfailure⟩
    · exact .refl _
    · exact hfailure.uses
  · obtain ⟨hnonce, _, -, -, rfl⟩ := executeUndelegate_ok h
    exact .trans (.updateAccount _ _ (.of_bump hnonce rfl)) (.putDelegation ..)

lemma uses_executeClaimDelegation (tx : ClaimDelegationTx) (db : Ledger) :
    db.Uses tx.nonce false (executeClaimDelegation epoch tx db).2 := by
  rcases h : executeClaimDelegation epoch tx db with ⟨_ | _, db'⟩
  · exact (executeClaimDelegation_error h).uses
  · obtain ⟨hnonce, record, -, -, hdb⟩ := executeClaimDelegation_ok h
    have hpaid : db.Uses tx.nonce false ((db.updateAccount tx.delegator
        (·.bumpNonce epoch)).adjustAccount tx.delegator (·.credit record.unbondingAmount epoch)) :=
      .trans (.updateAccount _ _ (.of_bump hnonce rfl)) (.adjustAccount _ _ (.of_same rfl))
    rcases hdb with ⟨-, rfl⟩ | rfl
    · exact hpaid.trans (.removeDelegation ..)
    · exact hpaid.trans (.putDelegation ..)

lemma uses_executeMultisig (tx : MultiSigTx) (db : Ledger) :
    db.Uses tx.nonce false (executeMultisig epoch tx db).2 := by
  rcases h : executeMultisig epoch tx db with ⟨_ | _, db'⟩
  · exact (executeMultisig_error h).uses
  · obtain ⟨hnonce, rfl⟩ := executeMultisig_ok h
    exact .updateAccount _ _ (.of_bump hnonce rfl)

lemma uses_executeRotateValidatorKey (verifyPop : Bytes → Bytes → Bool)
    (rot : RotateValidatorKeyTx) (db : Ledger) :
    db.Uses rot.nonce false (executeRotateValidatorKey epoch verifyPop rot db).2 := by
  rcases h : executeRotateValidatorKey epoch verifyPop rot db with ⟨_ | _, db'⟩
  · exact executeRotateValidatorKey_error h ▸ .refl _
  · obtain ⟨-, -, rfl⟩ := executeRotateValidatorKey_ok h
    exact .adjustAccount _ _ (.of_saturate rfl)

lemma uses_executeValidatorStake (tx : ValidatorStakeTx) (db : Ledger) :
    db.Uses tx.nonce true (executeValidatorStake epoch tx db).2 := by
  rcases h : executeValidatorStake epoch tx db with ⟨_ | _, db'⟩
  · exact (executeValidatorStake_error h).uses
  · obtain ⟨hnonce, -, rfl⟩ := executeValidatorStake_ok h
    exact .trans (.updateAccount _ _ (.of_bump hnonce rfl)) (.putStake _ _ rfl)

lemma uses_executeValidatorExit (tx : ValidatorExitTx) (db : Ledger) :
    db.Uses tx.nonce true (executeValidatorExit epoch tx db).2 := by
  rcases h : executeValidatorExit epoch tx db with ⟨_ | _, db'⟩
  · exact (executeValidatorExit_error h).uses
  · obtain ⟨hnonce, _, -, -, -, rfl⟩ := executeValidatorExit_ok h
    exact .trans (.updateAccount _ _ (.of_bump hnonce rfl)) (.putStake _ _ rfl)

lemma uses_executeValidatorClaimStake (tx : ValidatorClaimStakeTx) (db : Ledger) :
    db.Uses tx.nonce true (executeValidatorClaimStake epoch tx db).2 := by
  rcases h : executeValidatorClaimStake epoch tx db with ⟨_ | _, db'⟩
  · exact (executeValidatorClaimStake_error h).uses
  · obtain ⟨hnonce, _, -, -, rfl⟩ := executeValidatorClaimStake_ok h
    exact .trans (.updateAccount _ _ (.of_bump hnonce rfl)) (.removeStake _ _ rfl)

lemma uses_lockDeposit (bytes : ℕ) (addr : AccountAddress) (db : Ledger) :
    db.Uses n false (db.updateAccount addr (·.lockDeposit bytes epoch)) := by
  refine .updateAccount _ _ (.of_same ?_)
  simp

lemma advances_executeCreateObject (tx : CreateObjectTx) (db : Ledger) :
    Ledger.Advances n db (executeCreateObject epoch tx db).2 := by
  rcases h : executeCreateObject epoch tx db with ⟨_ | _, db'⟩
  · exact (executeCreateObject_error h).uses.advances
  · obtain ⟨-, -, rfl⟩ := executeCreateObject_ok h
    have hlock : db.Uses n false (db.updateAccount tx.creator
        (·.lockDeposit (satAdd 97 tx.data.length) epoch)) := uses_lockDeposit ..
    exact ⟨hlock.nonceGrows, hlock.stakes⟩

lemma quiet_executeRefresh (sender : Option AccountAddress) (tx : RefreshTx) (db : Ledger) :
    Ledger.Quiet db (executeRefresh epoch sender tx db).2 := by
  rcases h : executeRefresh epoch sender tx db with ⟨_ | _, db'⟩
  · exact executeRefresh_error h ▸ ⟨fun _ => rfl, rfl⟩
  · obtain ⟨_, -, ⟨-, rfl⟩ | rfl⟩ := executeRefresh_ok h
    · exact ⟨fun _ => rfl, rfl⟩
    · exact ⟨fun _ => rfl, rfl⟩

lemma advances_executeGovernance (valid : String → Except String Unit) (tx : GovernanceTx)
    (db : Ledger) : Ledger.Advances tx.nonce db (executeGovernance epoch valid tx db).2 := by
  have hbump (h : (db.account tx.sender).nonce = tx.nonce) : Ledger.Advances tx.nonce db
      (db.updateAccount tx.sender (·.bumpNonce epoch)) :=
    (Ledger.Writes.updateAccount db tx.sender (.of_bump h rfl)).advances
  rcases h : executeGovernance epoch valid tx db with ⟨_ | _, db'⟩
  · rcases executeGovernance_error h with ⟨hfailure, -⟩ | ⟨hnonce, _, _, _, -, -, -, -, rfl⟩
    · exact hfailure.uses.advances
    · exact ⟨(hbump hnonce).nonce, (hbump hnonce).stakes⟩
  · obtain ⟨hnonce, _, rfl⟩ := executeGovernance_ok h
    exact ⟨(hbump hnonce).nonce, (hbump hnonce).stakes⟩

end Handlers

section Engines

variable {env : ChainEnv C S} {cfg : ExecConfig} {epoch n : ℕ}

lemma uses_stampCaller {db : Ledger} {r : Handled (ChainState C S)} (caller : AccountAddress)
    (h : db.Uses n false r.2.db) : db.Uses n false (stampCaller epoch caller r).2.db := by
  unfold stampCaller
  split
  · exact h.trans (.adjustAccount _ _ (.of_same rfl))
  · exact h

lemma uses_executeDeployContract (tx : DeployContractTx) (st : ChainState C S) :
    st.db.Uses n false (executeDeployContract env epoch tx st).2.db := by
  rcases h : executeDeployContract env epoch tx st with ⟨_ | _, st'⟩
  · obtain ⟨_, rfl, ⟨-, hdb⟩ | ⟨-, _, rfl⟩⟩ := executeDeployContract_error h
    · exact hdb.uses
    · exact uses_lockDeposit ..
  · obtain ⟨_, _, -, rfl⟩ := executeDeployContract_ok h
    exact uses_lockDeposit ..

lemma uses_executeDeployScript (tx : DeployScriptTx) (st : ChainState C S) :
    st.db.Uses n false (executeDeployScript env epoch tx st).2.db := by
  rcases h : executeDeployScript env epoch tx st with ⟨_ | _, st'⟩
  · obtain ⟨_, rfl, ⟨-, hdb⟩ | ⟨-, _, rfl⟩⟩ := executeDeployScript_error h
    · exact hdb.uses
    · exact uses_lockDeposit ..
  · simp only [executeDeployScript] at h
    split at h
    · cases h
    · rename_i hcharge
      obtain ⟨-, rfl⟩ := chargeDeposit_ok hcharge
      (repeat' split at h) <;> cases h
      exact uses_lockDeposit ..

lemma uses_executeDeployTemplate (tx : DeployTemplateTx) (st : ChainState C S) :
    st.db.Uses n false (executeDeployTemplate env epoch tx st).2.db := by
  unfold executeDeployTemplate
  split
  · exact .refl _
  · exact uses_stampCaller _ (.refl _)

/-- A sponsor that is the sender uses up two nonces. -/
lemma uses_applyUserOp (epoch : ℕ) (tx : UserOpTx) (sponsor : Option (AccountAddress × ℕ))
    (db : Ledger) : db.Uses n false (applyUserOp epoch tx sponsor db) := by
  have hsender : db.Uses n false (db.updateAccount tx.sender (·.saturateNonce epoch)) :=
    .updateAccount _ _ (.of_saturate rfl)
  unfold applyUserOp
  split
  · exact hsender
  · exact hsender.trans (.updateAccount _ _ (.of_saturate rfl))

lemma InnerDone.writes {sender : AccountAddress} {st st' : ChainState C S}
    (h : InnerDone epoch sender st st') : st.db.Writes Account.SameNonce false st'.db := by
  cases h with
  | noop | contract | script => exact .refl _
  | transfer tx =>
    exact .trans (.updateAccount _ tx.fromAddr (f := (·.debit tx.amount epoch)) rfl)
      (.updateAccount _ _ rfl)

lemma uses_executeInner (sender : AccountAddress) (inner : Transaction) (st : ChainState C S) :
    st.db.Uses n false (executeInner env epoch sender inner st).2.db := by
  rcases h : executeInner env epoch sender inner st with ⟨_ | _, st'⟩
  · rcases executeInner_error h with ⟨_, hdb, rfl⟩ | ⟨_, _, _, -, rfl⟩
    · exact hdb.uses
    · exact .refl _
  · exact (executeInner_ok h).writes.mono fun _ _ hsame => .of_same hsame

lemma uses_executeUserOp (tx : UserOpTx) (st : ChainState C S) :
    st.db.Uses n false (executeUserOp env cfg epoch tx st).2.db := by
  unfold executeUserOp
  split
  · rename_i hcheck
    exact (checkUserOp_error hcheck).uses
  · rename_i sponsor db hcheck
    obtain ⟨-, hdb, -⟩ := checkUserOp_ok hcheck
    have hpaid : st.db.Uses n false (applyUserOp epoch tx sponsor db) :=
      hdb.uses.trans (uses_applyUserOp epoch tx sponsor db)
    split
    · exact hpaid
    · split
      · exact hpaid
      · exact hpaid.trans
          (uses_executeInner _ _ { st with db := applyUserOp epoch tx sponsor db })

lemma uses_executeUpgradeContract (tx : UpgradeContractTx) (st : ChainState C S) :
    st.db.Uses n false (executeUpgradeContract env epoch tx st).2.db := by
  rcases h : executeUpgradeContract env epoch tx st with ⟨_ | _, st'⟩
  · obtain ⟨_, rfl, ⟨-, hdb⟩ | ⟨-, rfl⟩⟩ := executeUpgradeContract_error h
    · exact hdb.uses
    · exact .updateAccount _ _ (.of_saturate rfl)
  · obtain ⟨-, _, -, rfl⟩ := executeUpgradeContract_ok h
    exact .updateAccount _ _ (.of_saturate rfl)

lemma db_executeDeferred (tx : DeferredTx) (st : ChainState C S) :
    (executeDeferred tx st).2.db = st.db := by
  unfold executeDeferred
  split <;> rfl

/-! ### Transactions -/

/-- The transactions that change stake records. -/
def isStaking : TxBody → Bool
  | .validatorStake _ | .validatorExit _ | .validatorClaimStake _ => true
  | _ => false

/-- Transactions that write more than accounts, stakes, delegations and engines. -/
def reachesParts : TxBody → Bool
  | .createObject _ | .refresh _ | .governance _ => true
  | _ => false

/-- The nonce a transaction uses; zero if it has none. -/
def usedNonce (body : TxBody) : ℕ := (body.nonceSlot.map Prod.snd).getD 0

lemma uses_dispatch {tx : Transaction} (h : reachesParts tx.body = false) (st : ChainState C S) :
    st.db.Uses (usedNonce tx.body) (isStaking tx.body) (dispatch env cfg epoch tx st).2.db := by
  unfold dispatch
  cases hbody : tx.body
  case createObject => simp [hbody, reachesParts] at h
  case refresh => simp [hbody, reachesParts] at h
  case governance => simp [hbody, reachesParts] at h
  case transfer => exact uses_executeTransfer _ _
  case deployContract => exact uses_executeDeployContract _ _
  case callContract => exact uses_stampCaller _ (by rw [db_callContract]; exact .refl _)
  case deployScript => exact uses_executeDeployScript _ _
  case callScript => exact uses_stampCaller _ (by rw [db_callScript]; exact .refl _)
  case validatorStake => exact uses_executeValidatorStake _ _
  case validatorExit => exact uses_executeValidatorExit _ _
  case validatorClaimStake => exact uses_executeValidatorClaimStake _ _
  case deferred =>
    rw [db_executeDeferred]
    exact .refl _
  case multiSig => exact uses_executeMultisig _ _
  case userOp => exact uses_executeUserOp _ _
  case upgradeContract => exact uses_executeUpgradeContract _ _
  case delegate => exact uses_executeDelegate _ _
  case undelegate => exact uses_executeUndelegate _ _
  case rotateValidatorKey => exact uses_executeRotateValidatorKey _ _ _
  case claimDelegation => exact uses_executeClaimDelegation _ _
  case refund => exact uses_executeRefund _ _
  case deployTemplate => exact uses_executeDeployTemplate _ _
  all_goals exact .refl _

lemma advances_dispatch {tx : Transaction} (h : isStaking tx.body = false) (st : ChainState C S) :
    Ledger.Advances (usedNonce tx.body) st.db (dispatch env cfg epoch tx st).2.db := by
  by_cases hreaches : reachesParts tx.body = false
  · have huses : st.db.Uses _ (isStaking tx.body) (dispatch env cfg epoch tx st).2.db :=
      uses_dispatch hreaches st
    rw [h] at huses
    exact huses.advances
  · unfold dispatch
    cases hbody : tx.body <;> simp only [hbody, reachesParts, not_true_eq_false] at hreaches
    case createObject => exact advances_executeCreateObject _ _
    case refresh => exact .of_quiet (quiet_executeRefresh _ _ _)
    case governance => exact advances_executeGovernance _ _ _

lemma nonceGrows_dispatch (tx : Transaction) (st : ChainState C S) :
    Ledger.NonceGrows (usedNonce tx.body) st.db (dispatch env cfg epoch tx st).2.db := by
  by_cases hstaking : isStaking tx.body = false
  · exact (advances_dispatch hstaking st).nonce
  · refine (uses_dispatch ?_ st).nonceGrows
    cases hbody : tx.body <;> simp only [hbody, isStaking, not_true_eq_false] at hstaking
    all_goals rfl

/-- A transaction that fails changes no stake record. -/
lemma stakes_dispatch_error {tx : Transaction} {st st' : ChainState C S} {e : ExecutionError}
    (h : dispatch env cfg epoch tx st = (.error e, st')) : st'.db.stakes = st.db.stakes := by
  by_cases hstaking : isStaking tx.body = false
  · have hstakes : (dispatch env cfg epoch tx st).2.db.stakes = st.db.stakes :=
      (advances_dispatch hstaking st).stakes
    rwa [h] at hstakes
  · unfold dispatch at h
    cases hbody : tx.body <;>
      simp [hbody, isStaking] at hstaking
    all_goals
      rw [hbody] at h
      obtain ⟨db, hdb, rfl⟩ := onLedger_eq h
    · exact ((executeValidatorStake_error hdb).uses (n := 0)).stakes
    · exact (executeValidatorExit_error hdb).uses.stakes
    · exact ((executeValidatorClaimStake_error hdb).uses (n := 0)).stakes

lemma writes_deductFee (cfg : ExecConfig) (epoch : ℕ) (tx : Transaction) (db : Ledger) :
    db.Writes Account.SameNonce false (deductFee env cfg epoch tx db).2 := by
  unfold deductFee chargeFee
  split
  · dsimp only
    split_ifs
    · exact .updateAccount _ _ rfl
    · exact .updateAccount _ _ rfl
  · exact .refl _

lemma writes_revertSender (tx : Transaction) (snapshot : Option (ℕ × ℕ)) (db : Ledger) :
    db.Writes (fun _ _ => True) false (revertSender tx snapshot db) := by
  unfold revertSender
  split
  · exact .adjustAccount _ _ trivial
  · exact .refl _

lemma nonceGrows_runTx (cfg : ExecConfig) (epoch gasUsed : ℕ) (tx : Transaction)
    (st : ChainState C S) :
    Ledger.NonceGrows (usedNonce tx.body) st.db (runTx env cfg epoch gasUsed tx st).2.db := by
  have hfee : Ledger.NonceGrows (usedNonce tx.body) st.db (deductFee env cfg epoch tx st.db).2 :=
    .of_quiet (writes_deductFee cfg epoch tx st.db).quiet
  have hdispatch (db : Ledger) : Ledger.NonceGrows (usedNonce tx.body) db
      (dispatch env cfg epoch tx { st with db := db }).2.db :=
    nonceGrows_dispatch tx { st with db := db }
  rcases hrun : runTx env cfg epoch gasUsed tx st with ⟨result, st'⟩
  cases txRun_of_runTx hrun with
  | refused error => exact .of_quiet ⟨fun _ => rfl, rfl⟩
  | unpaid fee =>
    rw [fee] at hfee
    exact hfee
  | @failed db e st' fee result =>
    rw [fee] at hfee
    have hresult := hdispatch db
    rw [result] at hresult
    refine hfee.trans ?_
    intro hn a ha
    rw [account_revertSender]
    split_ifs
    · exact ⟨le_rfl, ha⟩
    · exact hresult hn a ha
  | @done db st' fee result =>
    rw [fee] at hfee
    have hresult := hdispatch db
    rw [result] at hresult
    exact hfee.trans hresult

def maturedNonce (env : ChainEnv C S) (inner : Bytes) : ℕ :=
  match env.decodeTransaction inner with
  | .ok inner => usedNonce inner.body
  | .error _ => 0

lemma advances_executeMatured (inner : Bytes) (st : ChainState C S) :
    Ledger.Advances (maturedNonce env inner) st.db (executeMatured env epoch inner st).2.db := by
  have hsame (n : ℕ) : Ledger.Advances n st.db st.db := .of_quiet ⟨fun _ => rfl, rfl⟩
  unfold executeMatured maturedNonce
  cases env.decodeTransaction inner with
  | error e => exact hsame _
  | ok inner' =>
    dsimp only
    cases inner'.body
    case transfer tx => exact (uses_executeTransfer _ _).advances
    case createObject tx => exact advances_executeCreateObject _ _
    case callContract tx =>
      rw [db_callContract]
      exact hsame _
    case callScript tx =>
      rw [db_callScript]
      exact hsame _
    all_goals exact hsame _

variable (input : BlockInput) (st : ChainState C S)

lemma quiet_atDeferred :
    Ledger.Quiet (transactionsOf env input st).st.db (atDeferred env input st).db :=
  (quiet_beforeDeferred env _ _ _ _).db

/-- After the matured transactions nothing more happens to nonces and stakes in a block. -/
lemma quiet_nextState :
    Ledger.Quiet (afterMatured env input.block.epoch (atDeferred env input st)).db
      (nextState env st input).db := by
  have hafter := (settles_afterDeferred env input.block input.scan
    (transactionsOf env input st).totalFees
    (processDeferred env input.block.epoch (atDeferred env input st))).db
  exact ((writes_payRefunds _ _ _).trans hafter).quiet

/-- Stake records change only while the transactions of a block are executed. -/
lemma stakes_nextState :
    (nextState env st input).db.stakes = (transactionsOf env input st).st.db.stakes := by
  have hmatured (matured : List (AccountAddress × Bytes × ℕ)) (st : ChainState C S) :
      (executeAllMatured env input.block.epoch matured st).db.stakes = st.db.stakes :=
    foldl_keeps (fun st (entry : AccountAddress × Bytes × ℕ) =>
        (executeMatured env input.block.epoch entry.2.1 st).2)
      (g := fun st : ChainState C S => st.db.stakes)
      (fun st entry => (advances_executeMatured entry.2.1 st).stakes) matured st
  rw [(quiet_nextState input st).stakes, ← (quiet_atDeferred input st).stakes]
  exact hmatured _ _

end Engines

/-! ### Nonces that are used -/

section

variable {epoch : ℕ} {db : Ledger} {a : AccountAddress} {n : ℕ}

lemma nonce_updateAccount_self (db : Ledger) (a : AccountAddress) (f : Account → Account) :
    ((db.updateAccount a f).account a).nonce = (f (db.account a)).nonce := by
  rw [Ledger.toStateDb_updateAccount, StateDb.account_updateAccount_self]

section

variable (h : (db.account a).nonce = n)

include h

lemma lt_nonce_bump (hn : n < u64Max) :
    n < ((db.updateAccount a (·.bumpNonce epoch)).account a).nonce := by
  rw [nonce_updateAccount_self, Account.nonce_bumpNonce epoch (h ▸ hn), h]
  exact Nat.lt_succ_self n

lemma lt_nonce_debit {amount : ℕ} (hn : n < u64Max) :
    n < ((db.updateAccount a fun acct =>
      (acct.debit amount epoch).bumpNonce epoch).account a).nonce := by
  have hbump : (((db.account a).debit amount epoch).bumpNonce epoch).nonce =
      (db.account a).nonce + 1 := Account.nonce_bumpNonce epoch (h ▸ hn)
  rw [nonce_updateAccount_self, hbump, h]
  exact Nat.lt_succ_self n

lemma lt_nonce_saturate (hn : n < u64Max) :
    n < ((db.updateAccount a (·.saturateNonce epoch)).account a).nonce := by
  rw [nonce_updateAccount_self, Account.nonce_saturateNonce epoch (h ▸ hn), h]
  exact Nat.lt_succ_self n

end

lemma lt_nonce_applyUserOp {tx : UserOpTx} (h : (db.account tx.sender).nonce = n) (hn : n < u64Max)
    (sponsor : Option (AccountAddress × ℕ)) :
    n < ((applyUserOp epoch tx sponsor db).account tx.sender).nonce := by
  have hsender : n < ((db.updateAccount tx.sender (·.saturateNonce epoch)).account
      tx.sender).nonce := lt_nonce_saturate h hn
  have hrange : ((db.updateAccount tx.sender (·.saturateNonce epoch)).account
      tx.sender).nonce ≤ u64Max := by
    rw [nonce_updateAccount_self]
    exact min_le_right _ _
  unfold applyUserOp
  split
  · exact hsender
  · rename_i paymaster cost
    have hsponsor (db : Ledger) : db.Uses n false (db.updateAccount paymaster fun acct =>
        (acct.debit cost epoch).saturateNonce epoch) := .updateAccount _ _ (.of_saturate rfl)
    exact hsender.trans_le ((hsponsor _).nonceGrows hn tx.sender hrange).1

end

end Simple

end EvaporChain
