import EvaporChain.Execution.PhaseEffects

/-!
# Deferred transactions

What the queue of deferred transactions costs: which accounts its matured transactions spend from,
and whether the deposits it refunds were ever taken.
-/

namespace EvaporChain

open Core StateDb Ledger List

namespace Simple

variable {C S : Type} (env : ChainEnv C S)

/-! ### Refunds -/

/-- What refunds pay to an address; one without an account gets nothing. -/
def refundedTo (addr : AccountAddress) (refunds : List (AccountAddress × ℕ)) (db : Ledger) : ℕ :=
  if (db.accounts addr).isSome then ((refunds.filter (·.1 = addr)).map Prod.snd).sum else 0

def atRefunds (input : BlockInput) (st : ChainState C S) : ChainState C S :=
  afterMatured env input.block.epoch (atDeferred env input st)

/-- What an address gets back in a block for deferred transactions that expired. -/
def blockRefunds (addr : AccountAddress) (st : ChainState C S) (input : BlockInput) : ℕ :=
  refundedTo addr (dueDeferred env input.block.epoch (atDeferred env input st)).1.refunds
    (atRefunds env input st).db

/-- What a deferred transaction takes from an address besides its fee. -/
def depositDebit (input : BlockInput) (addr : AccountAddress) (r : Progress C S)
    (tx : Transaction) : ℕ :=
  match tx.body with
  | .deferred d =>
    if d.submitter = addr then
      ((deductFee env input.cfg.toExecConfig input.block.epoch tx r.st.db).2.account addr).balance -
        ((Progress.step env input.cfg.toExecConfig input.block.epoch r tx).st.db.account
          addr).balance
    else 0
  | _ => 0

variable (addr : AccountAddress) (st : ChainState C S)

def blockDeposits (input : BlockInput) : ℕ :=
  ((transactionSteps env st input).map fun x => depositDebit env input addr x.1 x.2).sum

/-- Refunds to an address over a run. -/
def totalRefunds (inputs : List BlockInput) : ℕ :=
  ((trace (nextState env) st inputs).map fun x => blockRefunds env addr x.1 x.2).sum

/-- Deposits of an address over a run. -/
def totalDeposits (inputs : List BlockInput) : ℕ :=
  ((trace (nextState env) st inputs).map fun x => blockDeposits env addr x.1 x.2).sum

/-- A deferred transaction of an address with an account expires in a block. -/
def ExpiresFor (input : BlockInput) : Prop :=
  ((atRefunds env input st).db.accounts addr).isSome ∧
    ∃ refund ∈ (dueDeferred env input.block.epoch (atDeferred env input st)).1.refunds,
      refund.1 = addr

variable {env}

/-! ### Deposits -/

/-- A deferred transaction costs its submitter the fee and no deposit. -/
lemma depositDebit_eq_zero (input : BlockInput) (addr : AccountAddress) (r : Progress C S)
    (tx : Transaction) : depositDebit env input addr r tx = 0 := by
  unfold depositDebit
  split
  · rename_i d hbody
    split_ifs
    · rw [st_step, Nat.sub_eq_zero_iff_le]
      rcases hrun : runTx env input.cfg.toExecConfig input.block.epoch r.gasUsed tx r.st
        with ⟨result, st'⟩
      cases txRun_of_runTx hrun with
      | refused error => exact balance_deductFee_le _ _ _ _ _
      | unpaid fee => rw [fee]
      | failed fee result =>
        simp only [dispatch, hbody] at result
        rw [fee, executeDeferred_error result, account_revertSender]
        split_ifs <;> rfl
      | done fee result =>
        simp only [dispatch, hbody] at result
        obtain ⟨q, -, rfl⟩ := executeDeferred_ok result
        rw [fee]
    · rfl
  · rfl

/-! ### The queue of a run -/

/-- Every waiting transaction has something left of its deposit. -/
def Funded (q : Temporal.DeferredQueue) : Prop := ∀ entry ∈ q.queue, 0 < entry.remainingDeposit

lemma funded_submit {q q' : Temporal.DeferredQueue} {tx : DeferredTx} (h : q.submit tx = .ok q')
    (hq : Funded q) : Funded q' := by
  unfold Temporal.DeferredQueue.submit at h
  split_ifs at h with hguards hinner hdeposit hfull
  cases h
  intro entry hentry
  rcases mem_orderedInsert _ |>.mp hentry with rfl | hentry
  · simp only [Temporal.DeferredQueue.entryOf, Temporal.queueStorageFee]
    unfold Temporal.minDeferredDeposit at hdeposit
    omega
  · exact hq entry hentry

variable {st : ChainState C S}

lemma funded_dispatch {cfg : ExecConfig} {epoch : ℕ} {tx : Transaction}
    (h : Funded st.deferredQueue) : Funded (dispatch env cfg epoch tx st).2.deferredQueue := by
  by_cases hdeferred : ∃ d, tx.body = .deferred d
  · obtain ⟨d, hd⟩ := hdeferred
    simp only [dispatch, hd]
    rcases hresult : executeDeferred d st with ⟨result, st'⟩
    cases result with
    | error e => rwa [executeDeferred_error hresult]
    | ok u =>
      obtain ⟨q, hq, rfl⟩ := executeDeferred_ok hresult
      exact funded_submit hq h
  · have hstep : EngineStep st (dispatch env cfg epoch tx st).2 :=
      engineStep_dispatch (fun d hd => hdeferred ⟨d, hd⟩) st
    obtain ⟨_, _, _, hst⟩ := hstep
    rwa [hst]

lemma funded_step {cfg : ExecConfig} {epoch : ℕ} {r : Progress C S} {tx : Transaction}
    (h : Funded r.st.deferredQueue) : Funded (r.step env cfg epoch tx).st.deferredQueue := by
  rw [st_step]
  rcases hrun : runTx env cfg epoch r.gasUsed tx r.st with ⟨result, st'⟩
  cases txRun_of_runTx hrun with
  | refused error | unpaid fee => exact h
  | @failed db e st' fee hresult | @done db st' fee hresult =>
    have hfunded : Funded (dispatch env cfg epoch tx { r.st with db := db }).2.deferredQueue :=
      funded_dispatch h
    rwa [hresult] at hfunded

lemma funded_atDeferred (input : BlockInput) (h : Funded st.deferredQueue) :
    Funded (atDeferred env input st).deferredQueue := by
  unfold atDeferred
  rw [(quiet_beforeDeferred env _ _ _ _).deferredQueue]
  refine List.foldlRecOn (motive := fun r : Progress C S => Funded r.st.deferredQueue) _ _ ?_
    fun _ hr _ _ => funded_step hr
  rwa [Progress.start, (quiet_beginBlock input.block st).deferredQueue]

lemma deferredQueue_executeAllMatured (epoch : ℕ) (matured : List (AccountAddress × Bytes × ℕ))
    (st : ChainState C S) :
    (executeAllMatured env epoch matured st).deferredQueue = st.deferredQueue := by
  refine foldl_keeps _ (g := ChainState.deferredQueue) ?_ matured st
  intro st entry
  have hstep : EngineStep st (executeMatured env epoch entry.2.1 st).2 := engineStep_matured _ _
  obtain ⟨_, _, _, hst⟩ := hstep
  rw [hst]

lemma funded_nextState (input : BlockInput) (h : Funded st.deferredQueue) :
    Funded (nextState env st input).deferredQueue := by
  unfold nextState executeBlock
  rw [(settles_afterDeferred env _ _ _ _).deferredQueue]
  unfold processDeferred
  rw [deferredQueue_executeAllMatured]
  intro entry hentry
  exact funded_atDeferred input h entry (mem_of_mem_filter hentry)

/-- Refunds go to an address exactly if one of its transactions expires. -/
lemma blockRefunds_eq_zero_iff (h : Funded st.deferredQueue) (addr : AccountAddress)
    (input : BlockInput) : blockRefunds env addr st input = 0 ↔ ¬ExpiresFor env addr st input := by
  have hpositive : ∀ refund ∈
      (dueDeferred env input.block.epoch (atDeferred env input st)).1.refunds, 0 < refund.2 := by
    intro refund hrefund
    obtain ⟨entry, hentry, rfl⟩ := List.mem_map.mp hrefund
    exact funded_atDeferred input h entry (mem_of_mem_filter hentry)
  unfold blockRefunds refundedTo ExpiresFor
  split_ifs with hsome
  · simp only [sum_eq_zero_iff, mem_map, mem_filter, hsome, true_and, not_exists,
      not_and, decide_eq_true_eq, forall_exists_index, and_imp]
    constructor
    · intro hzero refund hrefund haddr
      exact absurd (hzero _ refund hrefund haddr rfl) (hpositive refund hrefund).ne'
    · intro hnone _ refund hrefund haddr _
      exact absurd haddr (hnone refund hrefund)
  · simp [hsome]

/-- Over a run that starts with an empty queue, what is refunded to an address is covered by what
was taken from it as deposits exactly if none of its deferred transactions expires while it has an
account: deposits are never taken. -/
theorem refunds_backed_iff {st : ChainState C S} (h : st.deferredQueue.queue = [])
    (inputs : List BlockInput) (addr : AccountAddress) :
    totalRefunds env addr st inputs ≤ totalDeposits env addr st inputs ↔
      ∀ x ∈ trace (nextState env) st inputs, ¬ExpiresFor env addr x.1 x.2 := by
  have hfunded : ∀ x ∈ trace (nextState env) st inputs, Funded x.1.deferredQueue := by
    intro x hx
    obtain ⟨inputs', _, -, hrun⟩ := exists_run_of_mem_trace _ hx
    rw [hrun]
    exact List.foldlRecOn (motive := fun st : ChainState C S => Funded st.deferredQueue) _ _
      (by simp [Funded, h]) fun _ hst input _ => funded_nextState input hst
  have hdeposits : totalDeposits env addr st inputs = 0 := by
    simp [totalDeposits, blockDeposits, depositDebit_eq_zero]
  rw [hdeposits, Nat.le_zero, totalRefunds, sum_eq_zero_iff]
  simp only [mem_map, forall_exists_index, and_imp, forall_apply_eq_imp_iff₂]
  refine forall₂_congr ?_
  intro x hx
  exact blockRefunds_eq_zero_iff (hfunded x hx) addr x.2

/-- Waits for an epoch after the one it expires in. -/
def lateDeferral (submitter : AccountAddress) (inner : Bytes) : DeferredTx where
  submitter := submitter
  nonce := 0
  deposit := 10000
  guards := [.afterEpoch 5, .beforeEpoch 1]
  innerTxBytes := inner
  gasLimit := 0

def expiringRun : List BlockInput :=
  [freeBlock 1 0 [.deferred (lateDeferral (addressOf 1) [0])], freeBlock 2 1 []]

theorem refunds_backed_iff_expiringRun :
    (freshState (Ledger.empty.fund (addressOf 1) 1)).deferredQueue.queue = [] ∧
      (totalRefunds simpleChain (addressOf 2)
          (freshState (Ledger.empty.fund (addressOf 1) 1)) expiringRun ≤
        totalDeposits simpleChain (addressOf 2)
          (freshState (Ledger.empty.fund (addressOf 1) 1)) expiringRun ↔
      ∀ x ∈ trace (nextState simpleChain)
          (freshState (Ledger.empty.fund (addressOf 1) 1)) expiringRun,
        ¬ExpiresFor simpleChain (addressOf 2) x.1 x.2) :=
  ⟨rfl, refunds_backed_iff rfl expiringRun (addressOf 2)⟩

/-- A submitter with one unit gets nine thousand back, though nothing was taken. -/
theorem refunds_unbacked :
    ¬totalRefunds simpleChain (addressOf 1)
        (freshState (Ledger.empty.fund (addressOf 1) 1)) expiringRun ≤
      totalDeposits simpleChain (addressOf 1)
        (freshState (Ledger.empty.fund (addressOf 1) 1)) expiringRun := by
  decide +kernel

/-! ### Matured transactions -/

variable (env)

def maturedSubmitters (epoch : ℕ) (st : ChainState C S) : List AccountAddress :=
  (dueDeferred env epoch st).1.maturedTxs.map Prod.fst

def maturedSpender (epoch : ℕ) (inner : Bytes) (st : ChainState C S) : Option AccountAddress :=
  match env.decodeTransaction inner with
  | .error _ => none
  | .ok inner =>
    match inner.body with
    | .transfer tx => if (executeTransfer epoch tx st.db).1.isOk then some tx.fromAddr else none
    | .createObject tx =>
      if (executeCreateObject epoch tx st.db).1.isOk then some tx.creator else none
    | _ => none

variable {env}

/-- Nobody else has less, or another nonce. -/
def KeepsOthers (addrs : List AccountAddress) (db db' : Ledger) : Prop :=
  ∀ a ∉ addrs, (db.account a).balance ≤ (db'.account a).balance ∧
    (db'.account a).nonce = (db.account a).nonce

variable {addrs : List AccountAddress}

lemma KeepsOthers.of_account {db db' : Ledger}
    (h : ∀ a, db'.account a = db.account a) : KeepsOthers addrs db db' := by
  intro a _
  rw [h a]
  exact ⟨le_rfl, rfl⟩

lemma KeepsOthers.trans {db db' db'' : Ledger}
    (h : KeepsOthers addrs db db') (h' : KeepsOthers addrs db' db'') :
    KeepsOthers addrs db db'' := by
  intro a ha
  exact ⟨(h a ha).1.trans (h' a ha).1, (h' a ha).2.trans (h a ha).2⟩

def InRange (db : Ledger) : Prop := ∀ a, (db.account a).balance ≤ u64Max

section

variable {epoch : ℕ} {db db' : Ledger}

lemma keepsOthers_transfer {tx : TransferTx}
    (h : executeTransfer epoch tx db = (.ok (), db')) (hdb : InRange db) :
    KeepsOthers addrs db db' ↔ tx.fromAddr ∈ addrs := by
  obtain ⟨hne, hamount, -, hle, rfl⟩ := executeTransfer_ok h
  have hbalance := hle.trans (spendable_le epoch tx _)
  constructor
  · intro hkeeps
    by_contra hfrom
    have hlower := (hkeeps tx.fromAddr hfrom).1
    rw [toStateDb_updateAccount, toStateDb_updateAccount,
      account_updateAccount_of_ne _ hne, account_updateAccount_self] at hlower
    rw [balance_payTransfer] at hlower
    omega
  · intro hfrom a ha
    have hafrom : a ≠ tx.fromAddr := fun h => ha (h ▸ hfrom)
    rw [toStateDb_updateAccount, toStateDb_updateAccount, account_updateAccount,
      account_updateAccount_of_ne _ hne.symm, account_updateAccount_of_ne _ hafrom]
    split_ifs with hto
    · subst hto
      refine ⟨?_, rfl⟩
      exact le_min (le_self_add) (hdb _)
    · exact ⟨le_rfl, rfl⟩

lemma inRange_transfer {tx : TransferTx} (h : executeTransfer epoch tx db = (.ok (), db'))
    (hdb : InRange db) : InRange db' := by
  obtain ⟨hne, -, -, -, rfl⟩ := executeTransfer_ok h
  intro a
  rw [toStateDb_updateAccount, toStateDb_updateAccount, account_updateAccount,
    account_updateAccount_of_ne _ hne.symm, account_updateAccount]
  split_ifs with hto hfrom
  · exact satAdd_le_max _ _
  · rw [balance_payTransfer]
    exact (Nat.sub_le _ _).trans (hdb tx.fromAddr)
  · exact hdb a

lemma keepsOthers_createObject {tx : CreateObjectTx}
    (h : executeCreateObject epoch tx db = (.ok (), db')) :
    KeepsOthers addrs db db' ↔ tx.creator ∈ addrs := by
  obtain ⟨-, hle, rfl⟩ := executeCreateObject_ok h
  have hbalance := hle.trans ((db.account tx.creator).transferableBalance_le epoch)
  unfold minStorageDeposit at hbalance
  constructor
  · intro hkeeps
    by_contra hcreator
    have hlower := (hkeeps tx.creator hcreator).1
    simp only [toStateDb_putObject, toStateDb_updateAccount, account_putObject,
      account_updateAccount_self, Account.lockDeposit, minStorageDeposit] at hlower
    omega
  · intro hcreator a ha
    have hne : a ≠ tx.creator := fun h => ha (h ▸ hcreator)
    simp [account_updateAccount_of_ne _ hne]

lemma inRange_createObject {tx : CreateObjectTx}
    (h : executeCreateObject epoch tx db = (.ok (), db')) (hdb : InRange db) : InRange db' := by
  obtain ⟨-, -, rfl⟩ := executeCreateObject_ok h
  intro a
  simp only [toStateDb_putObject, toStateDb_updateAccount, account_putObject, account_updateAccount]
  split_ifs with ha
  · exact (Nat.sub_le _ _).trans (hdb tx.creator)
  · exact hdb a

end

section

variable {epoch : ℕ} {st : ChainState C S}

/-- A matured transaction spends from one account or from none. -/
lemma executeMatured_db (env : ChainEnv C S) (epoch : ℕ) (inner : Bytes) (st : ChainState C S) :
    (maturedSpender env epoch inner st = none ∧
        Untouched st.db (executeMatured env epoch inner st).2.db) ∨
      (∃ tx : TransferTx, maturedSpender env epoch inner st = some tx.fromAddr ∧
        executeTransfer epoch tx st.db = (.ok (), (executeMatured env epoch inner st).2.db)) ∨
      ∃ tx : CreateObjectTx, maturedSpender env epoch inner st = some tx.creator ∧
        executeCreateObject epoch tx st.db =
          (.ok (), (executeMatured env epoch inner st).2.db) := by
  unfold executeMatured maturedSpender onLedger
  cases env.decodeTransaction inner with
  | error e => exact .inl ⟨rfl, .refl _⟩
  | ok inner' =>
    dsimp only
    cases inner'.body
    case transfer tx =>
      dsimp only
      rcases h : executeTransfer epoch tx st.db with ⟨_ | _, db'⟩
      · exact .inl ⟨rfl, executeTransfer_error h⟩
      · exact .inr (.inl ⟨tx, rfl, h⟩)
    case createObject tx =>
      dsimp only
      rcases h : executeCreateObject epoch tx st.db with ⟨_ | _, db'⟩
      · exact .inl ⟨rfl, executeCreateObject_error h⟩
      · exact .inr (.inr ⟨tx, rfl, h⟩)
    case callContract tx =>
      refine .inl ⟨rfl, ?_⟩
      rw [db_callContract]
      exact .refl _
    case callScript tx =>
      refine .inl ⟨rfl, ?_⟩
      rw [db_callScript]
      exact .refl _
    all_goals exact .inl ⟨rfl, .refl _⟩

/-- One matured transaction acts for its submitters exactly if it spends from one of them. -/
lemma keepsOthers_executeMatured (inner : Bytes) (h : InRange st.db) :
    KeepsOthers addrs st.db (executeMatured env epoch inner st).2.db ↔
      ∀ addr, maturedSpender env epoch inner st = some addr → addr ∈ addrs := by
  rcases executeMatured_db env epoch inner st with
    ⟨hnone, hdb⟩ | ⟨tx, hsome, hdb⟩ | ⟨tx, hsome, hdb⟩
  · simp [hnone, KeepsOthers.of_account hdb.account]
  · rw [keepsOthers_transfer hdb h, hsome]
    simp
  · rw [keepsOthers_createObject hdb, hsome]
    simp

lemma inRange_executeMatured (inner : Bytes) (h : InRange st.db) :
    InRange (executeMatured env epoch inner st).2.db := by
  rcases executeMatured_db env epoch inner st with ⟨-, hdb⟩ | ⟨tx, -, hdb⟩ | ⟨tx, -, hdb⟩
  · intro a
    rw [hdb.account a]
    exact h a
  · exact inRange_transfer hdb h
  · exact inRange_createObject hdb h

lemma inRange_maturedSteps (h : InRange st.db) :
    ∀ x ∈ maturedSteps env epoch st, InRange x.1.db := by
  intro x hx
  obtain ⟨entries, _, -, hrun⟩ := exists_run_of_mem_trace _ hx
  rw [hrun]
  exact List.foldlRecOn (motive := fun st : ChainState C S => InRange st.db) _ _ h
    fun _ hst entry _ => inRange_executeMatured entry.2.1 hst

/-- Every matured transaction leaves the balance and the nonce of accounts that submitted none of
them alone exactly if each spends from an account that submitted one; then so do all together. -/
theorem matured_act_for_submitters_iff (h : InRange st.db) :
    ((∀ x ∈ maturedSteps env epoch st, KeepsOthers (maturedSubmitters env epoch st) x.1.db
        (executeMatured env epoch x.2.2.1 x.1).2.db) ↔
      ∀ x ∈ maturedSteps env epoch st, ∀ addr,
        maturedSpender env epoch x.2.2.1 x.1 = some addr → addr ∈ maturedSubmitters env epoch st) ∧
    ((∀ x ∈ maturedSteps env epoch st, ∀ addr, maturedSpender env epoch x.2.2.1 x.1 = some addr →
          addr ∈ maturedSubmitters env epoch st) →
      KeepsOthers (maturedSubmitters env epoch st) st.db (afterMatured env epoch st).db) := by
  have hstep : ∀ x ∈ maturedSteps env epoch st,
      (KeepsOthers (maturedSubmitters env epoch st) x.1.db
        (executeMatured env epoch x.2.2.1 x.1).2.db ↔
      ∀ addr, maturedSpender env epoch x.2.2.1 x.1 = some addr →
        addr ∈ maturedSubmitters env epoch st) := by
    intro x hx
    exact keepsOthers_executeMatured x.2.2.1 (inRange_maturedSteps h x hx)
  refine ⟨forall₂_congr hstep, ?_⟩
  intro hspends
  refine run_induction (P := fun (st' : ChainState C S) _ =>
      KeepsOthers (maturedSubmitters env epoch st) st.db st'.db)
    (G := fun st' (entry : AccountAddress × Bytes × ℕ) =>
      KeepsOthers (maturedSubmitters env epoch st) st'.db
        (executeMatured env epoch entry.2.1 st').2.db) _ ?_ ?_ _ ?_
  · exact .of_account fun _ => rfl
  · intro st' _ entry hst' hentry
    exact hst'.trans hentry
  · intro x hx
    exact (hstep x hx).mpr (hspends x hx)

end

/-- What everybody's deferred transaction holds: a transfer of the first account to the second. -/
def decodeTheft (_ : Bytes) : Except String Transaction :=
  .ok (unsignedTx (.transfer
    { fromAddr := addressOf 1, toAddr := addressOf 2, amount := 40, nonce := 0 }))

/-- It is deferred to the next epoch. -/
def theft (submitter : AccountAddress) : DeferredTx :=
  { lateDeferral submitter [0] with guards := [.afterEpoch 1] }

/-- The state in which it matures if the second account deferred it. -/
def theftState : ChainState Unit Unit :=
  atDeferred (plainChain decodeTheft) (freeBlock 2 1 [])
    (nextState (plainChain decodeTheft) (freshState (Ledger.empty.fund (addressOf 1) 100))
      (freeBlock 1 0 [.deferred (theft (addressOf 2))]))

/-- The state in which it matures if the first account deferred it itself. -/
def ownState : ChainState Unit Unit :=
  { freshState (Ledger.empty.fund (addressOf 1) 100) with
    deferredQueue :=
      { queue := [Temporal.DeferredQueue.new.entryOf (theft (addressOf 1))]
        nextSeq := 1
        sorted := pairwise_singleton _ _ } }

theorem matured_act_for_submitters_iff_own :
    InRange ownState.db ∧ maturedSubmitters (plainChain decodeTheft) 1 ownState = [addressOf 1] ∧
      KeepsOthers (maturedSubmitters (plainChain decodeTheft) 1 ownState) ownState.db
        (afterMatured (plainChain decodeTheft) 1 ownState).db := by
  have hrange : InRange ownState.db := by
    intro a
    simp only [ownState, freshState, fund, toStateDb_updateAccount, account_updateAccount]
    split_ifs
    · decide
    · exact Nat.zero_le _
  have hsubmitters : maturedSubmitters (plainChain decodeTheft) 1 ownState = [addressOf 1] := by
    decide +kernel
  refine ⟨hrange, hsubmitters, (matured_act_for_submitters_iff hrange).2 ?_⟩
  intro x _ addr haddr
  simp only [maturedSpender, plainChain, decodeTheft, unsignedTx] at haddr
  split_ifs at haddr
  cases haddr
  exact .head _

/-- Who defers a transfer of another account spends from it. -/
theorem matured_spends_from_others :
    ¬KeepsOthers (maturedSubmitters (plainChain decodeTheft) 1 theftState) theftState.db
      (afterMatured (plainChain decodeTheft) 1 theftState).db := by
  intro h
  have hlower := (h (addressOf 1) (by decide +kernel)).1
  revert hlower
  decide +kernel

end Simple

end EvaporChain
