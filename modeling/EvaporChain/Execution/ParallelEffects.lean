import EvaporChain.Execution.Effects
import EvaporChain.Execution.StmExecutor

/-!
# What transactions of the parallel executor can do

One inversion lemma for each of the two phases: a transaction of a partition is refused, fails or
is executed on its overlay, and a transaction of the serial phase on the whole state.
-/

namespace EvaporChain

open Core StateDb

namespace Parallel

/-! ### Accounts of overlays -/

namespace Overlay

variable (overlay : Overlay)

/-- Create the account if it is missing, then change it. -/
def updateAccount (addr : AccountAddress) (f : Account → Account) : Overlay :=
  { overlay with toStateDb := overlay.toStateDb.updateAccount addr f }

def putObject (obj : StateObject) : Overlay :=
  { overlay with toStateDb := overlay.toStateDb.putObject obj }

@[simp] lemma toStateDb_updateAccount (addr : AccountAddress) (f : Account → Account) :
    (overlay.updateAccount addr f).toStateDb = overlay.toStateDb.updateAccount addr f := rfl

@[simp] lemma toStateDb_putObject (obj : StateObject) :
    (overlay.putObject obj).toStateDb = overlay.toStateDb.putObject obj := rfl

end Overlay

lemma updateAccount_id {db : StateDb} {addr : AccountAddress} {acct : Account}
    (h : db.accounts addr = some acct) : db.updateAccount addr id = db := by
  have haddr : acct.address = addr := db.address_eq h
  apply StateDb.ext'
  · funext a
    rw [accounts_updateAccount, account_of_some h]
    split_ifs with ha
    · rw [ha, h, ← haddr]
      rfl
    · rfl
  · rfl
  · rfl

lemma getOrCreateAccount_apply (addr : AccountAddress) (overlay : Overlay) :
    getOrCreateAccount addr overlay = (overlay.account addr, overlay.updateAccount addr id) := by
  unfold getOrCreateAccount
  cases h : overlay.accounts addr with
  | none =>
    simp only [Overlay.updateAccount, StateDb.updateAccount, account_of_none h]
    rfl
  | some acct =>
    simp [Overlay.updateAccount, updateAccount_id h, account_of_some h]

/-- Changing an account that was just looked up. -/
lemma modifyAccount_apply {addr : AccountAddress} {f g : Account → Account}
    (hf : ∀ acct, (f acct).address = acct.address)
    (haddr : ∀ acct a, f { acct with address := a } = { f acct with address := a })
    (overlay : Overlay) :
    modifyAccount addr f hf (overlay.updateAccount addr g) =
      ((), overlay.updateAccount addr fun acct => f (g acct)) := by
  simp only [modifyAccount, Overlay.updateAccount]
  congr 2
  refine StateDb.ext' (funext fun a => ?_) rfl rfl
  simp only [StateDb.modifyAccount, accounts_updateAccount, Function.update_apply,
    if_true, Option.map_some]
  rw [haddr]
  split_ifs <;> rfl

lemma getObject_apply (id : ObjectId) (overlay : Overlay) :
    getObject id overlay = (overlay.objects id, overlay) := rfl

/-! ### Transactions of a partition -/

/-- Both hold the same money and nonces; accounts may have been created or touched. -/
structure Idle (db db' : StateDb) : Prop where
  account : ∀ a, ∃ epoch, db'.account a = { db.account a with lastTouchedEpoch := epoch }
  kept : ∀ a, (db.accounts a).isSome → (db'.accounts a).isSome

lemma Idle.refl (db : StateDb) : Idle db db := ⟨fun _ => ⟨_, rfl⟩, fun _ h => h⟩

lemma Idle.touch (db : StateDb) (addr : AccountAddress) : Idle db (db.updateAccount addr id) :=
  ⟨fun a => ⟨_, account_updateAccount_id db addr a⟩,
    fun _ h => db.isSome_accounts_updateAccount h addr id⟩

def txFee (env : ExecEnv) (cfg : ExecConfig) (tx : Transaction) : ℕ :=
  match cfg.feeController with
  | none => 0
  | some fc => (fc.computeGasFee (estimateGas tx) 0 + fc.extraFee env tx) % 2 ^ 64

/-- The fee step: there is nothing or nobody to charge, or the sender pays. -/
inductive Charged (env : ExecEnv) (cfg : ExecConfig) (epoch : ℕ) (tx : Transaction)
    (overlay : Overlay) : Overlay → Prop
  | free (h : cfg.feeController = none ∨ tx.sender = none) :
    Charged env cfg epoch tx overlay overlay
  | paid {addr : AccountAddress} (sender : tx.sender = some addr)
      (enough : txFee env cfg tx ≤ (overlay.account addr).balance) :
    Charged env cfg epoch tx overlay (overlay.updateAccount addr (·.debit (txFee env cfg tx) epoch))

section

variable {env : ExecEnv} {cfg : ExecConfig} {epoch : ℕ} {tx : Transaction}
  {overlay overlay' : Overlay}

lemma deductFee_cases {result : Except String ℕ}
    (h : deductFee env cfg epoch tx (estimateGas tx) overlay = (result, overlay')) :
    result = .ok (txFee env cfg tx) ∧ Charged env cfg epoch tx overlay overlay' ∨
      ∃ e, result = .error e ∧ Idle overlay.toStateDb overlay'.toStateDb := by
  unfold deductFee at h
  cases hfees : cfg.feeController with
  | none =>
    rw [hfees] at h
    cases h
    exact .inl ⟨by rw [txFee, hfees], .free (.inl hfees)⟩
  | some fc =>
    have hfee : txFee env cfg tx =
        (fc.computeGasFee (estimateGas tx) 0 + fc.extraFee env tx) % 2 ^ 64 := by
      rw [txFee, hfees]
    cases hsender : tx.sender with
    | none =>
      rw [hfees, hsender] at h
      cases h
      exact .inl ⟨by rw [hfee], .free (.inr hsender)⟩
    | some addr =>
      simp only [hfees, hsender, bind, StateT.bind, getOrCreateAccount_apply, ← hfee] at h
      split_ifs at h with hlow
      · cases h
        exact .inr ⟨_, rfl, .touch _ _⟩
      · rw [StateT.bind, modifyAccount_apply _ fun _ _ => rfl] at h
        cases h
        rw [← hfee]
        exact .inl ⟨rfl, .paid hsender (Nat.le_of_not_lt hlow)⟩

/-- Take the amount of a transfer from its sender. -/
def spendTransfer (epoch : ℕ) (tx : TransferTx) (acct : Account) : Account :=
  { acct with
    balance := acct.balance - tx.amount
    nonce := if tx.fromAddr = Hash.zero then acct.nonce else (acct.nonce + 1) % 2 ^ 64
    lastTouchedEpoch := epoch }

/-- Take the amount of a stake. No record is made of it. -/
def spendStake (epoch : ℕ) (tx : ValidatorStakeTx) (acct : Account) : Account :=
  { acct with
    balance := acct.balance - tx.stakeAmount
    nonce := (acct.nonce + 1) % 2 ^ 64
    lastTouchedEpoch := epoch }

/-- What a transaction does to an overlay when it is executed. -/
inductive Executed (epoch : ℕ) (overlay : Overlay) : TxBody → Overlay → Prop
  | transfer {tx : TransferTx} (distinct : tx.fromAddr ≠ tx.toAddr)
      (nonce : tx.fromAddr ≠ Hash.zero → (overlay.account tx.fromAddr).nonce = tx.nonce)
      (enough : tx.amount ≤ (overlay.account tx.fromAddr).balance) :
    Executed epoch overlay (.transfer tx)
      ((overlay.updateAccount tx.fromAddr (spendTransfer epoch tx)).updateAccount tx.toAddr
        (·.credit tx.amount epoch))
  | createObject {tx : CreateObjectTx} (obj : StateObject)
      (enough : minStorageDeposit ≤ (overlay.account tx.creator).balance) :
    Executed epoch overlay (.createObject tx)
      ((overlay.updateAccount tx.creator
        (·.lockDeposit (satAdd 97 tx.data.length) epoch)).putObject obj)
  | refresh {tx : RefreshTx} {overlay' : Overlay}
      (accounts : overlay'.accounts = overlay.accounts) :
    Executed epoch overlay (.refresh tx) overlay'
  | validatorStake {tx : ValidatorStakeTx}
      (nonce : (overlay.account tx.validatorAddress).nonce = tx.nonce)
      (enough : tx.stakeAmount ≤ (overlay.account tx.validatorAddress).balance) :
    Executed epoch overlay (.validatorStake tx)
      (overlay.updateAccount tx.validatorAddress (spendStake epoch tx))
  | blob {tx : BlobTx} : Executed epoch overlay (.blob tx) overlay

/-- How the handler of a transaction ends. -/
def Ends (epoch : ℕ) (body : TxBody) (overlay : Overlay)
    (r : Except ExecutionError Unit × Overlay) : Prop :=
  match r with
  | (.ok (), overlay') => Executed epoch overlay body overlay'
  | (.error _, overlay') => Idle overlay.toStateDb overlay'.toStateDb

lemma run_lift_bind {α β : Type} (m : OverlayM α) (k : α → ExecM β) (overlay : Overlay) :
    ((liftM m : ExecM α) >>= k).run overlay = (k (m overlay).1).run (m overlay).2 := rfl

lemma run_lift {α : Type} (m : OverlayM α) (overlay : Overlay) :
    (liftM m : ExecM α).run overlay = (.ok (m overlay).1, (m overlay).2) := rfl

lemma ends_throw (body : TxBody) (e : ExecutionError) :
    Ends epoch body overlay ((throw e : ExecM Unit).run overlay) := .refl _

/-- A failure after an account was looked up. -/
lemma ends_throw_touch (body : TxBody) (e : ExecutionError) (addr : AccountAddress) :
    Ends epoch body overlay ((throw e : ExecM Unit).run (overlay.updateAccount addr id)) :=
  .touch _ _

lemma ends_execTransfer (tx : TransferTx) :
    Ends epoch (.transfer tx) overlay ((execTransfer epoch tx).run overlay) := by
  unfold execTransfer
  by_cases hself : tx.fromAddr = tx.toAddr
  · rw [if_pos hself]
    exact ends_throw _ _
  by_cases hzero : tx.amount = 0
  · rw [if_neg hself, if_pos hzero]
    exact ends_throw _ _
  rw [if_neg hself, if_neg hzero, run_lift_bind, getOrCreateAccount_apply]
  by_cases hnonce : tx.fromAddr ≠ Hash.zero ∧ (overlay.account tx.fromAddr).nonce ≠ tx.nonce
  · rw [if_pos hnonce]
    exact ends_throw_touch _ _ _
  by_cases hlow : (overlay.account tx.fromAddr).balance < tx.amount
  · rw [if_neg hnonce, if_pos hlow]
    exact ends_throw_touch _ _ _
  · rw [if_neg hnonce, if_neg hlow, run_lift_bind, modifyAccount_apply _ fun _ _ => rfl,
      run_lift_bind, getOrCreateAccount_apply, run_lift, modifyAccount_apply _ fun _ _ => rfl]
    refine .transfer hself ?_ (Nat.le_of_not_lt hlow)
    intro hfrom
    by_contra hne
    exact hnonce ⟨hfrom, hne⟩

lemma ends_execCreateObject (tx : CreateObjectTx) :
    Ends epoch (.createObject tx) overlay ((execCreateObject epoch tx).run overlay) := by
  unfold execCreateObject
  rw [run_lift_bind, getObject_apply]
  split
  · exact ends_throw _ _
  · rw [run_lift_bind, getOrCreateAccount_apply]
    by_cases hlow : (overlay.account tx.creator).balance < minStorageDeposit
    · rw [if_pos hlow]
      exact ends_throw_touch _ _ _
    · rw [if_neg hlow, run_lift_bind, modifyAccount_apply _ fun _ _ => rfl]
      exact .createObject _ (Nat.le_of_not_lt hlow)

lemma ends_refresh (tx : RefreshTx) (obj : StateObject) :
    Ends epoch (.refresh tx) overlay ((refresh epoch tx obj).run overlay) := by
  unfold refresh refreshFailed
  (repeat' split)
  · exact ends_throw _ _
  · exact .refresh rfl
  · exact .refresh rfl
  · exact .refresh rfl
  · exact ends_throw _ _

lemma ends_resurrect (tx : RefreshTx) (ghost : GhostRecord) :
    Ends epoch (.refresh tx) overlay ((resurrect epoch tx ghost).run overlay) := by
  unfold resurrect refreshFailed
  (repeat' split)
  · exact ends_throw _ _
  · exact ends_throw _ _
  · exact .refresh rfl

lemma ends_execRefresh (tx : RefreshTx) :
    Ends epoch (.refresh tx) overlay ((execRefresh epoch tx).run overlay) := by
  unfold execRefresh
  rw [run_lift_bind]
  split
  · exact ends_refresh _ _
  · rw [run_lift_bind]
    split
    · exact ends_resurrect _ _
    · exact ends_throw _ _

lemma ends_execValidatorStake (tx : ValidatorStakeTx) :
    Ends epoch (.validatorStake tx) overlay ((execValidatorStake epoch tx).run overlay) := by
  unfold execValidatorStake
  by_cases hzero : tx.stakeAmount = 0
  · rw [if_pos hzero]
    exact ends_throw _ _
  rw [if_neg hzero, run_lift_bind, getOrCreateAccount_apply]
  by_cases hnonce : (overlay.account tx.validatorAddress).nonce = tx.nonce
  · by_cases hlow : (overlay.account tx.validatorAddress).balance < tx.stakeAmount
    · rw [if_neg (not_not.mpr hnonce), if_pos hlow]
      exact ends_throw_touch _ _ _
    · rw [if_neg (not_not.mpr hnonce), if_neg hlow, run_lift, modifyAccount_apply _ fun _ _ => rfl]
      exact .validatorStake hnonce (Nat.le_of_not_lt hlow)
  · rw [if_pos hnonce]
    exact ends_throw_touch _ _ _

lemma ends_checkBlob (tx : BlobTx) :
    Ends epoch (.blob tx) overlay
      ((ExceptT.mk (pure (checkBlob tx)) : ExecM Unit).run overlay) := by
  cases h : checkBlob tx with
  | ok u => exact .blob
  | error e => exact Idle.refl _

/-- Of the kinds that reach a partition five do something; the others are turned away. -/
lemma ends_execBody (hserial : isSerial tx = false) :
    Ends epoch tx.body overlay ((execBody epoch tx).run overlay) := by
  unfold execBody
  unfold isSerial at hserial
  cases hbody : tx.body <;> simp only [hbody, reduceCtorEq] at hserial ⊢
  case transfer => exact ends_execTransfer _
  case refresh => exact ends_execRefresh _
  case createObject => exact ends_execCreateObject _
  case validatorStake => exact ends_execValidatorStake _
  case blob => exact ends_checkBlob _
  all_goals exact ends_throw _ _

/-- What a transaction of a partition can do. -/
inductive TxRun (env : ExecEnv) (cfg : ExecConfig) (epoch : ℕ) (tx : Transaction)
    (overlay : Overlay) : TxResult → Overlay → Prop
  | unpaid {error : String} {overlay' : Overlay}
      (deducted : deductFee env cfg epoch tx (estimateGas tx) overlay = (.error error, overlay'))
      (idle : Idle overlay.toStateDb overlay'.toStateDb) :
    TxRun env cfg epoch tx overlay (.unpaid error) overlay'
  | failed {charged overlay' : Overlay} {error : ExecutionError}
      (deducted : deductFee env cfg epoch tx (estimateGas tx) overlay =
        (.ok (txFee env cfg tx), charged))
      (fee : Charged env cfg epoch tx overlay charged)
      (idle : Idle charged.toStateDb overlay'.toStateDb) :
    TxRun env cfg epoch tx overlay (.failed (txFee env cfg tx) error) overlay'
  | done {charged overlay' : Overlay}
      (deducted : deductFee env cfg epoch tx (estimateGas tx) overlay =
        (.ok (txFee env cfg tx), charged))
      (fee : Charged env cfg epoch tx overlay charged)
      (executed : Executed epoch charged tx.body overlay') :
    TxRun env cfg epoch tx overlay (.done (txFee env cfg tx)) overlay'

/-- Balance and nonce are given back to a sender that did not lose them. -/
lemma idle_modifyAccount {db db' : StateDb} {addr : AccountAddress} {acct : Account}
    (h : Idle db db') (hacct : db.accounts addr = some acct) :
    Idle db (db'.modifyAccount addr
      (fun a => { a with balance := acct.balance, nonce := acct.nonce }) fun _ => rfl) := by
  refine ⟨fun a => ?_, fun a ha => ?_⟩
  case refine_2 =>
    have hkept := h.kept a ha
    simp only [StateDb.modifyAccount, Function.update_apply]
    split_ifs with haddr
    · rwa [Option.isSome_map, ← haddr]
    · exact hkept
  obtain ⟨e, he⟩ := h.account a
  by_cases ha : a = addr
  · subst ha
    rw [account_of_some hacct] at he ⊢
    cases haccount : db'.accounts a with
    | none =>
      refine ⟨e, ?_⟩
      rw [← he]
      simp [StateDb.account, StateDb.modifyAccount, haccount]
    | some acct' =>
      rw [account_of_some haccount] at he
      simp [StateDb.account, StateDb.modifyAccount, haccount, he]
  · refine ⟨e, ?_⟩
    rw [← he]
    simp [StateDb.account, StateDb.modifyAccount, ha]

lemma idle_revertSender {charged : Overlay} (h : Idle charged.toStateDb overlay.toStateDb) :
    Idle charged.toStateDb
      (revertSender tx (senderSnapshot tx charged).1 overlay).2.toStateDb := by
  unfold revertSender senderSnapshot
  cases hsender : tx.sender with
  | none => exact h
  | some addr =>
    dsimp only [bind, StateT.bind, getAccount]
    cases hacct : charged.accounts addr with
    | none => exact h
    | some acct => exact idle_modifyAccount h hacct

lemma senderSnapshot_snd (tx : Transaction) (overlay : Overlay) :
    (senderSnapshot tx overlay).2 = overlay := by
  unfold senderSnapshot
  cases tx.sender <;> rfl

lemma bind_apply {α β : Type} (m : OverlayM α) (k : α → OverlayM β) (overlay : Overlay) :
    (m >>= k) overlay = k (m overlay).1 (m overlay).2 := rfl

lemma txRun_of_runTx (hserial : isSerial tx = false) {result : TxResult}
    (h : runTx env cfg epoch tx overlay = (result, overlay')) :
    TxRun env cfg epoch tx overlay result overlay' := by
  rcases hfee : deductFee env cfg epoch tx (estimateGas tx) overlay with ⟨paid, charged⟩
  rw [runTx, bind_apply, hfee] at h
  rcases deductFee_cases hfee with ⟨rfl, hcharged⟩ | ⟨e, rfl, hidle⟩
  · have hends : Ends epoch tx.body charged ((execBody epoch tx).run charged) :=
      ends_execBody hserial
    dsimp only at h
    rw [bind_apply, senderSnapshot_snd, bind_apply] at h
    rcases hrun : (execBody epoch tx).run charged with ⟨ended, after⟩
    rw [hrun] at h hends
    cases ended with
    | ok u =>
      cases h
      exact .done hfee hcharged hends
    | error e =>
      cases h
      exact .failed hfee hcharged (idle_revertSender hends)
  · cases h
    exact .unpaid hfee hidle

/-- Whether a transaction of a partition gets to its fee. -/
def PartitionResult.ReachesFee (env : ExecEnv) (cfg : ExecConfig) (r : PartitionResult)
    (tx : Transaction) : Prop :=
  verifyTxSignature env cfg.verifySignatures tx cfg.chainId = .ok () ∧ estimateGas tx ≤ r.gasBudget

instance (r : PartitionResult) : Decidable (r.ReachesFee env cfg tx) :=
  inferInstanceAs (Decidable (_ ∧ _))

/-- What the next transaction of a partition can do to what was executed so far. -/
inductive StepRun (env : ExecEnv) (cfg : ExecConfig) (epoch : ℕ) (r : PartitionResult)
    (x : ℕ × Transaction) : PartitionResult → Prop
  | refused (error : String) (skipped : ¬ r.ReachesFee env cfg x.2) :
    StepRun env cfg epoch r x (r.skip x.1 (x.2.txHash env) error)
  | unpaid {overlay' : Overlay} {error : String} (reached : r.ReachesFee env cfg x.2)
      (deducted : deductFee env cfg epoch x.2 (estimateGas x.2) r.overlay =
        (.error error, overlay'))
      (idle : Idle r.overlay.toStateDb overlay'.toStateDb) :
    StepRun env cfg epoch r x ({ r with overlay := overlay' }.skip x.1 (x.2.txHash env) error)
  | failed {charged overlay' : Overlay} (e : ExecutionError)
      (reached : r.ReachesFee env cfg x.2)
      (deducted : deductFee env cfg epoch x.2 (estimateGas x.2) r.overlay =
        (.ok (txFee env cfg x.2), charged))
      (fee : Charged env cfg epoch x.2 r.overlay charged)
      (idle : Idle charged.toStateDb overlay'.toStateDb) :
    StepRun env cfg epoch r x
      { r with
        overlay := overlay'
        txsFailed := r.txsFailed + 1
        totalFees := (r.totalFees + txFee env cfg x.2) % 2 ^ 64
        txOutcomes := r.txOutcomes ++
          [(x.1, ⟨x.2.txHash env, false, some e.toString, estimateGas x.2⟩)] }
  | done {charged overlay' : Overlay} (reached : r.ReachesFee env cfg x.2)
      (deducted : deductFee env cfg epoch x.2 (estimateGas x.2) r.overlay =
        (.ok (txFee env cfg x.2), charged))
      (fee : Charged env cfg epoch x.2 r.overlay charged)
      (executed : Executed epoch charged x.2.body overlay') :
    StepRun env cfg epoch r x
      { overlay := overlay'
        txsExecuted := r.txsExecuted + 1
        txsFailed := r.txsFailed
        gasUsed := (r.gasUsed + estimateGas x.2) % 2 ^ 64
        totalFees := (r.totalFees + txFee env cfg x.2) % 2 ^ 64
        txOutcomes := r.txOutcomes ++ [(x.1, ⟨x.2.txHash env, true, none, estimateGas x.2⟩)]
        gasBudget := r.gasBudget - estimateGas x.2 }

variable (env cfg epoch) in
lemma stepRun_step (r : PartitionResult) {x : ℕ × Transaction} (hserial : isSerial x.2 = false) :
    StepRun env cfg epoch r x (r.step env cfg epoch x) := by
  simp only [PartitionResult.step]
  split
  · rename_i hsigned
    refine .refused _ fun h => ?_
    rw [h.1] at hsigned
    cases hsigned
  · rename_i hsigned
    split_ifs with hgas
    · exact .refused _ fun h => absurd h.2 (not_le.mpr hgas)
    · have hreached : r.ReachesFee env cfg x.2 := ⟨hsigned, Nat.le_of_not_lt hgas⟩
      rcases hrun : runTx env cfg epoch x.2 r.overlay with ⟨result, overlay'⟩
      cases txRun_of_runTx hserial hrun with
      | unpaid deducted idle => exact .unpaid hreached deducted idle
      | failed deducted fee idle => exact .failed _ hreached deducted fee idle
      | done deducted fee executed => exact .done hreached deducted fee executed

end

/-! ### Transactions of the serial phase -/

section

variable {C S : Type} {env : ChainEnv C S} {cfg : ExecConfig} {epoch : ℕ} {tx : Transaction}

lemma blockGasLimit_deployContract (tx : DeployContractTx) (st : ChainState C S) :
    (deployContract env epoch tx st).2.blockGasLimit = st.blockGasLimit := by
  simp only [deployContract]
  (repeat' split) <;> rfl

lemma blockGasLimit_callContract (tx : CallContractTx) (st : ChainState C S) :
    (callContract env tx st).2.blockGasLimit = st.blockGasLimit := by
  unfold callContract
  (repeat' split) <;> rfl

lemma blockGasLimit_deployScript (tx : DeployScriptTx) (st : ChainState C S) :
    (deployScript env epoch tx st).2.blockGasLimit = st.blockGasLimit := by
  unfold deployScript
  (repeat' split) <;> rfl

lemma blockGasLimit_callScript (tx : CallScriptTx) (st : ChainState C S) :
    (callScript env tx st).2.blockGasLimit = st.blockGasLimit := by
  simp only [callScript]
  (repeat' split) <;> rfl

lemma blockGasLimit_executeDeferred (tx : DeferredTx) (st : ChainState C S) :
    (Simple.executeDeferred tx st).2.blockGasLimit = st.blockGasLimit := by
  unfold Simple.executeDeferred
  (repeat' split) <;> rfl

/-- The handlers of the serial phase keep the limit. -/
lemma blockGasLimit_executeSerial {st : ChainState C S} {r : Simple.Handled (ChainState C S)}
    (h : executeSerial env epoch tx st = .ok r) : r.2.blockGasLimit = st.blockGasLimit := by
  unfold executeSerial at h
  cases hbody : tx.body <;> simp only [hbody, Except.ok.injEq, reduceCtorEq] at h
  all_goals subst h
  case deployContract => exact blockGasLimit_deployContract ..
  case callContract => exact blockGasLimit_callContract ..
  case deployScript => exact blockGasLimit_deployScript ..
  case callScript => exact blockGasLimit_callScript ..
  case deferred => exact blockGasLimit_executeDeferred ..
  all_goals rfl

/-- Of the serial kinds only one has no handler. -/
lemma executeSerial_eq_error {st : ChainState C S} (hserial : isSerial tx = true) :
    (∃ failure, executeSerial env epoch tx st = .error failure) ↔
      ∃ t, tx.body = .deployTemplate t := by
  unfold executeSerial
  unfold isSerial at hserial
  cases hbody : tx.body <;> simp [hbody] at hserial ⊢

/-- Whether a transaction of the serial phase passes the checks before its handler. -/
def Progress.Reaches (env : ChainEnv C S) (phase : SerialPhase C S) (cfg : ExecConfig) (epoch : ℕ)
    (r : Progress C S) (tx : Transaction) : Prop :=
  verifyTxSignature env.toExecEnv cfg.verifySignatures tx cfg.chainId = .ok () ∧
    phase.overLimit r.st.blockGasLimit r.gasUsed (phase.estimateGas tx) = false ∧
    (deductGasFee cfg epoch (phase.estimateGas tx) tx r.st.db).1 = .ok ()

variable {phase : SerialPhase C S}

instance (r : Progress C S) : Decidable (r.Reaches env phase cfg epoch tx) :=
  inferInstanceAs (Decidable (_ ∧ _))

/-- What the next transaction of the serial phase can do. -/
inductive SerialRun (env : ChainEnv C S) (phase : SerialPhase C S) (cfg : ExecConfig) (epoch : ℕ)
    (r : Progress C S) (x : ℕ × Transaction) : Except BlockFailure (Progress C S) → Prop
  | refused (error : String) (skipped : ¬ r.Reaches env phase cfg epoch x.2) :
    SerialRun env phase cfg epoch r x (.ok (r.skip x.1 (x.2.txHash env.toExecEnv) error))
  | unpaid {error : String} {db : Ledger} (skipped : ¬ r.Reaches env phase cfg epoch x.2)
      (fee : deductGasFee cfg epoch (phase.estimateGas x.2) x.2 r.st.db = (.error error, db)) :
    SerialRun env phase cfg epoch r x
      (.ok ({ r with st := { r.st with db := db } }.skip x.1 (x.2.txHash env.toExecEnv) error))
  | lost {db : Ledger} {failure : BlockFailure} (reached : r.Reaches env phase cfg epoch x.2)
      (fee : deductGasFee cfg epoch (phase.estimateGas x.2) x.2 r.st.db = (.ok (), db))
      (result : phase.execute env epoch x.2 { r.st with db := db } = .error failure) :
    SerialRun env phase cfg epoch r x (.error failure)
  | failed {db : Ledger} {e : ExecutionError} {st' : ChainState C S}
      (reached : r.Reaches env phase cfg epoch x.2)
      (fee : deductGasFee cfg epoch (phase.estimateGas x.2) x.2 r.st.db = (.ok (), db))
      (result : phase.execute env epoch x.2 { r.st with db := db } = .ok (.error e, st')) :
    SerialRun env phase cfg epoch r x (.ok
      { r with
        st := st'
        totalFees := phase.add r.totalFees (gasFee cfg (phase.estimateGas x.2))
        indexedOutcomes := r.indexedOutcomes ++
          [(x.1, ⟨x.2.txHash env.toExecEnv, false, some e.toString, phase.estimateGas x.2⟩)] })
  | done {db : Ledger} {st' : ChainState C S} (reached : r.Reaches env phase cfg epoch x.2)
      (fee : deductGasFee cfg epoch (phase.estimateGas x.2) x.2 r.st.db = (.ok (), db))
      (result : phase.execute env epoch x.2 { r.st with db := db } = .ok (.ok (), st')) :
    SerialRun env phase cfg epoch r x (.ok
      { st := st'
        gasUsed := phase.add r.gasUsed (phase.estimateGas x.2)
        totalFees := phase.add r.totalFees (gasFee cfg (phase.estimateGas x.2))
        validatorKeyRotations := r.validatorKeyRotations ++ phase.rotations x.2
        indexedOutcomes := r.indexedOutcomes ++
          [(x.1, ⟨x.2.txHash env.toExecEnv, true, none, phase.estimateGas x.2⟩)] })

variable (env phase cfg epoch) in
lemma serialRun_step (r : Progress C S) (x : ℕ × Transaction) :
    SerialRun env phase cfg epoch r x (r.step env phase cfg epoch x) := by
  simp only [Progress.step]
  split
  · rename_i hsigned
    refine .refused _ fun h => ?_
    rw [h.1] at hsigned
    cases hsigned
  · rename_i hsigned
    split_ifs with hgas
    · refine .refused _ fun h => ?_
      rw [h.2.1] at hgas
      cases hgas
    · split
      · rename_i hfee
        refine .unpaid (fun h => ?_) hfee
        have hpaid := h.2.2
        rw [hfee] at hpaid
        cases hpaid
      · rename_i hfee
        have hreached : r.Reaches env phase cfg epoch x.2 :=
          ⟨hsigned, Bool.not_eq_true _ ▸ hgas, by rw [hfee]⟩
        split
        · exact .lost hreached hfee ‹_›
        · exact .done hreached hfee ‹_›
        · exact .failed hreached hfee ‹_›

end

end Parallel

namespace BlockStm

/-! ### Transactions of the sequential path of Block-STM -/

section

variable {env : ExecEnv} {cfg : ExecConfig} {db : StateDb} {epoch : ℕ}

/-- A step on the local copies; the totals stay. -/
def Sequential.CopiesOnly (s s' : Sequential) : Prop :=
  ∃ accounts objects, s' = { s with accounts := accounts, objects := objects }

variable (s : Sequential)

lemma Sequential.CopiesOnly.refl : s.CopiesOnly s := ⟨_, _, rfl⟩

variable (env cfg db epoch) in
lemma copiesOnly_deductFee (tx : Transaction) :
    s.CopiesOnly (s.deductFee db env cfg epoch tx).2 := by
  simp only [Sequential.deductFee]
  (repeat' split) <;> exact ⟨_, _, rfl⟩

variable (db epoch) in
lemma copiesOnly_execute (tx : Transaction) : s.CopiesOnly (s.execute db epoch tx).2 := by
  unfold Sequential.execute
  split
  · simp only [Sequential.transfer]
    (repeat' split) <;> exact ⟨_, _, rfl⟩
  · unfold Sequential.createObject
    (repeat' split) <;> exact ⟨_, _, rfl⟩
  · unfold Sequential.refresh
    cases s.getObject db _ <;> exact ⟨_, _, rfl⟩
  · simp only [Sequential.validatorStake]
    (repeat' split) <;> exact ⟨_, _, rfl⟩
  · simp only [Sequential.validatorExit]
    (repeat' split) <;> exact ⟨_, _, rfl⟩
  · exact .refl s

/-- What the next transaction of the sequential path does to the totals. -/
inductive Sequential.StepRun (env : ExecEnv) (cfg : ExecConfig) (db : StateDb) (epoch : ℕ)
    (s : Sequential) (tx : Transaction) : Sequential → Prop
  | unpaid {e : String} {s' : Sequential} (fee : s.deductFee db env cfg epoch tx = (.error e, s'))
      (copies : s.CopiesOnly s') :
    StepRun env cfg db epoch s tx
      { s' with
        txsFailed := s.txsFailed + 1
        txOutcomes := s.txOutcomes ++ [⟨tx.txHash env, false, some e, 0⟩] }
  | done {txFee : ℕ} {charged s' : Sequential}
      (fee : s.deductFee db env cfg epoch tx = (.ok txFee, charged))
      (result : charged.execute db epoch tx = (true, s')) (copies : s.CopiesOnly s') :
    StepRun env cfg db epoch s tx
      { s' with
        txsExecuted := s.txsExecuted + 1
        gasUsed := satAdd s.gasUsed (estimateGas tx)
        totalFees := satAdd s.totalFees txFee
        txOutcomes := s.txOutcomes ++ [⟨tx.txHash env, true, none, estimateGas tx⟩] }
  | failed {txFee : ℕ} {charged s' : Sequential}
      (fee : s.deductFee db env cfg epoch tx = (.ok txFee, charged))
      (result : charged.execute db epoch tx = (false, s')) (copies : s.CopiesOnly s') :
    StepRun env cfg db epoch s tx
      { s' with
        txsFailed := s.txsFailed + 1
        totalFees := satAdd s.totalFees txFee
        txOutcomes := s.txOutcomes ++
          [⟨tx.txHash env, false, some "execution failed", estimateGas tx⟩] }

variable (env cfg db epoch) in
lemma Sequential.stepRun_step (tx : Transaction) :
    s.StepRun env cfg db epoch tx (s.step db env cfg epoch tx) := by
  simp only [Sequential.step]
  rcases hfee : s.deductFee db env cfg epoch tx with ⟨paid, charged⟩
  have hcharged := copiesOnly_deductFee env cfg db epoch s tx
  rw [hfee] at hcharged
  obtain ⟨accounts, objects, rfl⟩ := hcharged
  cases paid with
  | error e => exact .unpaid hfee ⟨_, _, rfl⟩
  | ok txFee =>
    dsimp only
    rcases hresult : Sequential.execute db epoch { s with accounts := accounts, objects := objects }
      tx with ⟨success, s'⟩
    have hs' := copiesOnly_execute db epoch
      { s with accounts := accounts, objects := objects } tx
    rw [hresult] at hs'
    obtain ⟨accounts', objects', rfl⟩ := hs'
    cases success with
    | true => exact .done hfee hresult ⟨_, _, rfl⟩
    | false => exact .failed hfee hresult ⟨_, _, rfl⟩

end

/-! ### Transactions of the serial phase of Block-STM -/

variable {C S : Type} {env : ChainEnv C S} {cfg : ExecConfig} {epoch : ℕ}

/-- Exits and claims that end the block: an exit with the right nonce and without an own stake, a
claim without an own stake in exit, and one that is due but has a wrong nonce. -/
def EndsBlock (epoch : ℕ) (body : TxBody) (db : Ledger) : Prop :=
  match body with
  | .validatorExit tx =>
    (db.account tx.validatorAddress).nonce = tx.nonce ∧
      ∀ stake, db.stakes.lookup tx.validatorId = some stake →
        stake.validatorAddress ≠ tx.validatorAddress
  | .validatorClaimStake tx =>
    ∀ stake, db.stakes.lookup tx.validatorId = some stake →
      stake.validatorAddress = tx.validatorAddress →
      ∀ unbonding, stake.unbondingEpoch = some unbonding →
        unbonding ≤ epoch ∧ (db.account tx.validatorAddress).nonce ≠ tx.nonce
  | _ => False

lemma executeValidatorExit_eq_error {tx : ValidatorExitTx} {db : Ledger} :
    (∃ e, executeValidatorExit epoch tx db = .error e) ↔
      EndsBlock epoch (.validatorExit tx) db := by
  unfold executeValidatorExit EndsBlock
  dsimp only
  by_cases hnonce : (db.account tx.validatorAddress).nonce = tx.nonce
  · have hstakes (f : Account → Account) :
        (db.updateAccount tx.validatorAddress f).stakes = db.stakes := rfl
    rw [hstakes]
    cases hstake : db.stakes.lookup tx.validatorId with
    | none => simp [hnonce]
    | some stake =>
      by_cases haddr : stake.validatorAddress = tx.validatorAddress
      · simp only [ne_eq]
        split_ifs <;> simp [haddr]
      · simp [hnonce, haddr]
  · simp [hnonce]

lemma executeValidatorClaimStake_eq_error {tx : ValidatorClaimStakeTx} {db : Ledger} :
    (∃ e, executeValidatorClaimStake epoch tx db = .error e) ↔
      EndsBlock epoch (.validatorClaimStake tx) db := by
  unfold executeValidatorClaimStake EndsBlock
  dsimp only
  cases hstake : db.stakes.lookup tx.validatorId with
  | none => simp
  | some stake =>
    by_cases haddr : stake.validatorAddress = tx.validatorAddress
    · cases hunbonding : stake.unbondingEpoch with
      | none => simp [haddr, hunbonding]
      | some unbonding =>
        by_cases hepoch : epoch < unbonding
        · simp [haddr, hunbonding, hepoch]
        · by_cases hnonce : (db.account tx.validatorAddress).nonce = tx.nonce
          · simp [haddr, hunbonding, hepoch, hnonce]
          · simp [haddr, hunbonding, hepoch, hnonce, Nat.le_of_not_lt hepoch]
    · simp [haddr]

lemma onLedger_eq_error {f : Ledger → Except ExecutionError (Simple.Handled Ledger)}
    {st : ChainState C S} :
    (∃ failure, onLedger f st = .error failure) ↔ ∃ e, f st.db = .error e := by
  unfold onLedger
  cases f st.db <;> simp

variable (env) in
lemma executeSerialTx_eq_error {tx : Transaction} (st : ChainState C S)
    (hserial : isSerial tx = true) :
    (∃ failure, executeSerialTx env epoch tx st = .error failure) ↔
      EndsBlock epoch tx.body st.db := by
  unfold executeSerialTx
  unfold isSerial at hserial
  cases hbody : tx.body <;> simp only [hbody, reduceCtorEq] at hserial ⊢
  case validatorExit t => exact onLedger_eq_error.trans executeValidatorExit_eq_error
  case validatorClaimStake t => exact onLedger_eq_error.trans executeValidatorClaimStake_eq_error
  all_goals simp [EndsBlock]

end BlockStm

end EvaporChain
