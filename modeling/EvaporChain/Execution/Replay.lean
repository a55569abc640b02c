import EvaporChain.Execution.Frames

/-!
# Replay

A transaction that checks a nonce cannot succeed twice; the other kinds can.
-/

namespace EvaporChain

open Core

namespace Simple

variable {C S : Type} (env : ChainEnv C S)

def successHashes (outcomes : List TxOutcome) : List Hash :=
  (outcomes.filter (·.success)).map (·.txHash)

def runSuccesses (st : ChainState C S) (inputs : List BlockInput) : List Hash :=
  (trace (nextState env) st inputs).flatMap fun x =>
    successHashes (executeBlock env x.1 x.2).1.txOutcomes

/-- Among some transactions, the hash of the signed bytes identifies the bytes. -/
def CollisionFree (txs : List Transaction) : Prop :=
  ∀ tx ∈ txs, ∀ tx' ∈ txs, tx.txHash env.toExecEnv = tx'.txHash env.toExecEnv →
    env.signableBytes tx = env.signableBytes tx'

/-- Kinds that use up a nonce when they succeed. The zero address has none to use up, and the nonce
of a missing account is not counted by a key rotation. -/
def usesNonce (db : Ledger) : TxBody → Bool
  | .transfer t => t.fromAddr ≠ Hash.zero
  | .rotateValidatorKey t => (db.accounts t.validatorAddress).isSome
  | body => body.nonceSlot.isSome

def sentHashes (inputs : List BlockInput) : List Hash :=
  inputs.flatMap fun input => input.block.transactions.map (Transaction.txHash env.toExecEnv)

variable (sent : List Hash)

/-- The nonce is not the last one, and a transaction that succeeds uses it up or was sent once. -/
def guardedTx (input : BlockInput) (r : Progress C S) (tx : Transaction) : Bool :=
  usedNonce tx.body < u64Max &&
    match (runTx env input.cfg.toExecConfig input.block.epoch r.gasUsed tx r.st).1 with
    | .done => usesNonce r.st.db tx.body || sent.count (tx.txHash env.toExecEnv) ≤ 1
    | _ => true

/-- So it is for all transactions of a block; what matures does not use the last nonce either. -/
def guardedBlock (st : ChainState C S) (input : BlockInput) : Bool :=
  (transactionSteps env st input).all (fun x => guardedTx env sent input x.1 x.2) &&
    (dueDeferred env input.block.epoch (atDeferred env input st)).1.maturedTxs.all fun entry =>
      maturedNonce env entry.2.1 < u64Max

variable {env sent}

/-! ### Successful transactions use up their nonce -/

section

variable {cfg : ExecConfig} {epoch : ℕ} {st st' : ChainState C S} {a : AccountAddress} {n : ℕ}

/-- What a transaction that succeeds says about the nonce it names. -/
lemma slot_used {tx : Transaction} (h : dispatch env cfg epoch tx st = (.ok (), st'))
    (huses : usesNonce st.db tx.body) (hslot : tx.body.nonceSlot = some (a, n)) (hn : n < u64Max) :
    (st.db.account a).nonce = n ∧ n < (st'.db.account a).nonce := by
  unfold dispatch at h
  cases hbody : tx.body <;> rw [hbody] at h hslot huses
  case transfer t =>
    obtain ⟨db, hdb, rfl⟩ := onLedger_eq h
    obtain ⟨hne, -, hnonce, -, rfl⟩ := executeTransfer_ok hdb
    cases hslot
    have hzero : t.fromAddr ≠ Hash.zero := by simpa [usesNonce] using huses
    have hnonce := hnonce.resolve_left hzero
    have hpay : payTransfer epoch t = fun acct => (acct.debit t.amount epoch).bumpNonce epoch := by
      funext acct
      exact if_neg hzero
    refine ⟨hnonce, ?_⟩
    rw [Ledger.toStateDb_updateAccount, StateDb.account_updateAccount_of_ne _ hne, hpay]
    exact lt_nonce_debit hnonce hn
  case validatorStake t =>
    obtain ⟨db, hdb, rfl⟩ := onLedger_eq h
    obtain ⟨hnonce, -, rfl⟩ := executeValidatorStake_ok hdb
    cases hslot
    exact ⟨hnonce, lt_nonce_debit hnonce hn⟩
  case validatorExit t =>
    obtain ⟨db, hdb, rfl⟩ := onLedger_eq h
    obtain ⟨hnonce, _, -, -, -, rfl⟩ := executeValidatorExit_ok hdb
    cases hslot
    exact ⟨hnonce, lt_nonce_bump hnonce hn⟩
  case validatorClaimStake t =>
    obtain ⟨db, hdb, rfl⟩ := onLedger_eq h
    obtain ⟨hnonce, stake, -, -, rfl⟩ := executeValidatorClaimStake_ok hdb
    cases hslot
    refine ⟨hnonce, ?_⟩
    have hbump : ((st.db.account t.validatorAddress).claim stake.claimable epoch).nonce =
        (st.db.account t.validatorAddress).nonce + 1 := Account.nonce_bumpNonce epoch (hnonce ▸ hn)
    rw [Ledger.toStateDb_removeStake, nonce_updateAccount_self, hbump, hnonce]
    exact lt_add_one _
  case governance t =>
    obtain ⟨db, hdb, rfl⟩ := onLedger_eq h
    obtain ⟨hnonce, _, rfl⟩ := executeGovernance_ok hdb
    cases hslot
    exact ⟨hnonce, lt_nonce_bump hnonce hn⟩
  case multiSig t =>
    obtain ⟨db, hdb, rfl⟩ := onLedger_eq h
    obtain ⟨hnonce, rfl⟩ := executeMultisig_ok hdb
    cases hslot
    exact ⟨hnonce, lt_nonce_bump hnonce hn⟩
  case userOp t =>
    obtain ⟨sponsor, db, hcheck, hinner⟩ := executeUserOp_ok h
    obtain ⟨hnonce, hdb, -⟩ := checkUserOp_ok hcheck
    cases hslot
    refine ⟨hnonce, ?_⟩
    rw [hinner.writes.quiet.nonce]
    exact lt_nonce_applyUserOp ((congrArg Account.nonce (hdb.account t.sender)).trans hnonce) hn
      sponsor
  case upgradeContract t =>
    obtain ⟨hnonce, _, -, rfl⟩ := executeUpgradeContract_ok h
    cases hslot
    exact ⟨hnonce, lt_nonce_saturate hnonce hn⟩
  case delegate t =>
    obtain ⟨db, hdb, rfl⟩ := onLedger_eq h
    obtain ⟨hnonce, -, rfl⟩ := executeDelegate_ok hdb
    cases hslot
    exact ⟨hnonce, lt_nonce_debit hnonce hn⟩
  case undelegate t =>
    obtain ⟨db, hdb, rfl⟩ := onLedger_eq h
    obtain ⟨hnonce, _, -, -, rfl⟩ := executeUndelegate_ok hdb
    cases hslot
    exact ⟨hnonce, lt_nonce_bump hnonce hn⟩
  case rotateValidatorKey t =>
    obtain ⟨db, hdb, rfl⟩ := onLedger_eq h
    obtain ⟨hnonce, -, rfl⟩ := executeRotateValidatorKey_ok hdb
    cases hslot
    refine ⟨hnonce, ?_⟩
    rw [Ledger.toStateDb_adjustAccount, StateDb.account_adjustAccount, if_pos ⟨rfl, huses⟩]
    rw [Account.nonce_saturateNonce epoch (hnonce ▸ hn), hnonce]
    exact lt_add_one _
  case claimDelegation t =>
    obtain ⟨db, hdb, rfl⟩ := onLedger_eq h
    obtain ⟨hnonce, record, -, -, hpaid⟩ := executeClaimDelegation_ok hdb
    cases hslot
    have hcredit : Ledger.Quiet (st.db.updateAccount t.delegator (·.bumpNonce epoch))
        ((st.db.updateAccount t.delegator (·.bumpNonce epoch)).adjustAccount t.delegator
          (·.credit record.unbondingAmount epoch)) := (Ledger.Writes.adjustAccount _ _ rfl).quiet
    have hlt : t.nonce < ((st.db.updateAccount t.delegator (·.bumpNonce epoch)).account
        t.delegator).nonce := lt_nonce_bump hnonce hn
    rw [← hcredit.nonce] at hlt
    rcases hpaid with ⟨-, rfl⟩ | rfl
    · exact ⟨hnonce, hlt⟩
    · exact ⟨hnonce, hlt⟩
  all_goals cases hslot

/-- A transaction that succeeds found its nonce, and left a higher one. -/
lemma slot_used_runTx {gasUsed : ℕ} {tx : Transaction}
    (h : runTx env cfg epoch gasUsed tx st = (.done, st')) (huses : usesNonce st.db tx.body)
    (hslot : tx.body.nonceSlot = some (a, n)) (hn : n < u64Max) :
    (st.db.account a).nonce = n ∧ n < (st'.db.account a).nonce := by
  cases txRun_of_runTx h with
  | @done db st' fee result =>
    have hquiet : Ledger.Quiet st.db (deductFee env cfg epoch tx st.db).2 :=
      (writes_deductFee cfg epoch tx st.db).quiet
    have haccounts (addr : AccountAddress) (haddr : (st.db.accounts addr).isSome) :
        ((deductFee env cfg epoch tx st.db).2.accounts addr).isSome := by
      rcases chargeFee_ok fee with ⟨-, rfl⟩ | ⟨-, payer, -, -, rfl⟩
      · rwa [fee]
      · rw [fee, Ledger.toStateDb_updateAccount]
        exact st.db.isSome_accounts_updateAccount haddr _ _
    rw [fee] at hquiet haccounts
    rw [← hquiet.nonce a]
    refine slot_used result ?_ hslot hn
    cases hbody : tx.body <;> rw [hbody] at huses
    case rotateValidatorKey t => exact haccounts _ huses
    all_goals exact huses

end

/-! ### Runs -/

/-- Every nonce that was used is behind the present one. -/
structure NoncesSpent (env : ChainEnv C S) (done : List Transaction) (db : Ledger) : Prop where
  range : ∀ a, (db.account a).nonce ≤ u64Max
  spent : ∀ tx ∈ done, ∃ slot, tx.body.nonceSlot = some slot ∧ slot.2 < (db.account slot.1).nonce
  nodup : (done.map (Transaction.txHash env.toExecEnv)).Nodup

variable {db : Ledger} {all : List Transaction} {hash : Hash} {prior : List Hash}

lemma NoncesSpent.mono {done : List Transaction} {db' : Ledger} {n : ℕ}
    (h : NoncesSpent env done db) (hgrows : Ledger.NonceGrows n db db') (hn : n < u64Max) :
    NoncesSpent env done db' := by
  refine ⟨fun a => (hgrows hn a (h.range a)).2, ?_, h.nodup⟩
  intro tx htx
  obtain ⟨slot, hslot, hlt⟩ := h.spent tx htx
  exact ⟨slot, hslot, hlt.trans_le (hgrows hn slot.1 (h.range slot.1)).1⟩

/-- What is known about a hash in the middle of a block: `prior` are the successes of earlier
blocks. -/
def Logged (env : ChainEnv C S) (all : List Transaction) (hash : Hash) (prior : List Hash)
    (db : Ledger) (outcomes : List TxOutcome) : Prop :=
  ∃ done : List Transaction, (∀ tx ∈ done, tx ∈ all) ∧
    done.map (Transaction.txHash env.toExecEnv) =
      (prior ++ successHashes outcomes).filter (· == hash) ∧
    NoncesSpent env done db

lemma nonceSlot_isSome_of_usesNonce {body : TxBody} (h : usesNonce db body) :
    body.nonceSlot.isSome := by
  cases body
  all_goals first | rfl | exact h

variable {curveJson : DecayCurve → Bytes}

/-- A transaction that succeeds has another hash than those before it, for it found its nonce. -/
lemma NoncesSpent.hash_notMem {done : List Transaction} {tx : Transaction}
    {slot : AccountAddress × ℕ} (h : NoncesSpent env done db)
    (hbytes : ∀ tx, env.signableBytes tx = tx.signableBytes curveJson)
    (hfree : CollisionFree env (tx :: done)) (hslot : tx.body.nonceSlot = some slot)
    (hlt : slot.2 < u64Max) (hnonce : (db.account slot.1).nonce = slot.2) :
    tx.txHash env.toExecEnv ∉ done.map (Transaction.txHash env.toExecEnv) := by
  intro hmem
  obtain ⟨tx', htx', hhash⟩ := List.mem_map.mp hmem
  have hsame := hfree tx' (.tail _ htx') tx (.head _) hhash
  rw [hbytes, hbytes] at hsame
  obtain ⟨slot', hslot', hspent⟩ := h.spent tx' htx'
  have heq : tx'.body.nonceSlot = tx.body.nonceSlot := by
    refine nonceSlot_eq_of_signableBytes hsame ?_ ?_
    · rw [hslot']
      rintro _ ⟨⟩
      have := hspent.trans_le (h.range slot'.1)
      unfold u64Max at this
      omega
    · rw [hslot]
      rintro _ ⟨⟩
      unfold u64Max at hlt
      omega
  rw [hslot, hslot', Option.some_inj] at heq
  subst heq
  omega

lemma logged_step {input : BlockInput} {r : Progress C S} {tx : Transaction}
    (hbytes : ∀ tx, env.signableBytes tx = tx.signableBytes curveJson)
    (hfree : CollisionFree env all) (h : Logged env all hash prior r.st.db r.txOutcomes)
    (htx : tx ∈ all)
    (hmany : ¬sent.count hash ≤ 1) (hguard : guardedTx env sent input r tx) :
    Logged env all hash prior (r.step env input.cfg.toExecConfig input.block.epoch tx).st.db
      (r.step env input.cfg.toExecConfig input.block.epoch tx).txOutcomes := by
  obtain ⟨done, hdone, hhashes, hspent⟩ := h
  obtain ⟨hn, huses⟩ := Bool.and_eq_true_iff.mp hguard
  have hn := of_decide_eq_true hn
  have hgrows : Ledger.NonceGrows (usedNonce tx.body) r.st.db
      (runTx env input.cfg.toExecConfig input.block.epoch r.gasUsed tx r.st).2.db :=
    nonceGrows_runTx _ _ _ _ _
  unfold Progress.step
  rcases hrun : runTx env input.cfg.toExecConfig input.block.epoch r.gasUsed tx r.st
    with ⟨result, st'⟩
  rw [hrun] at hgrows huses
  have hafter := hspent.mono hgrows hn
  cases result with
  | refused error | failed e =>
    refine ⟨done, hdone, ?_, hafter⟩
    simpa [successHashes] using hhashes
  | done =>
    by_cases heq : tx.txHash env.toExecEnv = hash
    swap
    · refine ⟨done, hdone, ?_, hafter⟩
      simpa [successHashes, heq] using hhashes
    have huses : usesNonce r.st.db tx.body := by
      dsimp only at huses
      rw [heq, decide_eq_false hmany, Bool.or_false] at huses
      exact huses
    obtain ⟨slot, hslot⟩ := Option.isSome_iff_exists.mp (nonceSlot_isSome_of_usesNonce huses)
    have hslotlt : slot.2 < u64Max := by simpa [usedNonce, hslot] using hn
    obtain ⟨hfound, hleft⟩ := slot_used_runTx hrun huses hslot hslotlt
    have hnew := hspent.hash_notMem hbytes (fun t ht t' ht' => hfree t (by grind) t' (by grind))
      hslot hslotlt hfound
    refine ⟨done ++ [tx], ?_, ?_, hafter.range, ?_, ?_⟩
    · intro t ht
      rcases List.mem_append.mp ht with ht | ht
      · exact hdone t ht
      · exact List.mem_singleton.mp ht ▸ htx
    · simp [successHashes, hhashes, heq]
    · intro t ht
      rcases List.mem_append.mp ht with ht | ht
      · exact hafter.spent t ht
      · exact ⟨slot, List.mem_singleton.mp ht ▸ hslot, hleft⟩
    · rw [List.map_append]
      exact List.nodup_append.mpr ⟨hspent.nodup, List.nodup_singleton _, by grind⟩

lemma Logged.mono {db' : Ledger} {outcomes : List TxOutcome} {n : ℕ}
    (h : Logged env all hash prior db outcomes) (hgrows : Ledger.NonceGrows n db db')
    (hn : n < u64Max) :
    Logged env all hash prior db' outcomes := by
  obtain ⟨done, hdone, hhashes, hspent⟩ := h
  exact ⟨done, hdone, hhashes, hspent.mono hgrows hn⟩

lemma Logged.quiet {db' : Ledger} {outcomes : List TxOutcome}
    (h : Logged env all hash prior db outcomes)
    (hquiet : Ledger.Quiet db db') : Logged env all hash prior db' outcomes :=
  h.mono (.of_quiet (n := 0) hquiet) (by decide)

lemma logged_block {st : ChainState C S} {input : BlockInput}
    (hbytes : ∀ tx, env.signableBytes tx = tx.signableBytes curveJson)
    (hfree : CollisionFree env all) (h : Logged env all hash prior st.db [])
    (htxs : ∀ tx ∈ input.block.transactions, tx ∈ all) (hmany : ¬sent.count hash ≤ 1)
    (hguard : guardedBlock env sent st input) :
    Logged env all hash prior (nextState env st input).db
      (executeBlock env st input).1.txOutcomes := by
  obtain ⟨hsteps, hmatured⟩ := Bool.and_eq_true_iff.mp hguard
  have htransactions : Logged env all hash prior (transactionsOf env input st).st.db
      (transactionsOf env input st).txOutcomes := by
    refine run_induction (P := fun r _ => Logged env all hash prior r.st.db r.txOutcomes)
      (G := fun r tx => tx ∈ all ∧ guardedTx env sent input r tx)
      (Progress.step env input.cfg.toExecConfig input.block.epoch) ?_ ?_ _ ?_
    · exact h.quiet (quiet_beginBlock input.block st).db
    · intro r _ tx hr hg
      exact logged_step hbytes hfree hr hg.1 hmany hg.2
    · intro x hx
      exact ⟨htxs _ (snd_mem_of_mem_trace _ hx), List.all_eq_true.mp hsteps x hx⟩
  have hqueue := htransactions.quiet (quiet_atDeferred input st)
  have hafter : Logged env all hash prior (afterMatured env input.block.epoch
      (atDeferred env input st)).db (transactionsOf env input st).txOutcomes := by
    refine run_induction
      (P := fun (st' : ChainState C S) _ =>
        Logged env all hash prior st'.db (transactionsOf env input st).txOutcomes)
      (G := fun _ (entry : AccountAddress × Bytes × ℕ) => maturedNonce env entry.2.1 < u64Max)
      (fun st entry => (executeMatured env input.block.epoch entry.2.1 st).2) ?_ ?_ _ ?_
    · exact hqueue
    · intro st' _ entry hst' hentry
      exact hst'.mono (advances_executeMatured entry.2.1 st').nonce hentry
    · intro x hx
      exact of_decide_eq_true (List.all_eq_true.mp hmatured x.2 (snd_mem_of_mem_trace _ hx))
  exact hafter.quiet (quiet_nextState input st)

/-- One outcome for each transaction, in order. -/
lemma txHashes_executeBlock (st : ChainState C S) (input : BlockInput) :
    (executeBlock env st input).1.txOutcomes.map (·.txHash) =
      input.block.transactions.map (Transaction.txHash env.toExecEnv) := by
  have hrun : (transactionsOf env input st).txOutcomes.map (·.txHash) =
      ((transactionSteps env st input).map Prod.snd).map (Transaction.txHash env.toExecEnv) := by
    refine run_induction (G := fun _ _ => True)
      (P := fun (r : Progress C S) hist =>
        r.txOutcomes.map (·.txHash) =
          (hist.map Prod.snd).map (Transaction.txHash env.toExecEnv))
      (Progress.step env input.cfg.toExecConfig input.block.epoch) rfl ?_ _ fun _ _ => trivial
    intro r hist tx hr _
    rw [List.map_append, List.map_append, ← hr]
    unfold Progress.step
    rcases runTx env input.cfg.toExecConfig input.block.epoch r.gasUsed tx r.st with ⟨_ | _ | _, _⟩
    all_goals simp
  rw [transactionSteps, map_snd_trace] at hrun
  exact hrun

lemma runSuccesses_sublist (st : ChainState C S) (inputs : List BlockInput) :
    (runSuccesses env st inputs).Sublist (sentHashes env inputs) := by
  induction inputs generalizing st with
  | nil => exact .slnil
  | cons input inputs ih =>
    rw [runSuccesses, trace, List.flatMap_cons, sentHashes, List.flatMap_cons]
    refine List.Sublist.append ?_ (ih _)
    rw [← txHashes_executeBlock st input]
    exact List.filter_sublist.map _

/-- In a run whose transactions use up their nonces when they succeed, none of them the last one of
an account, or were sent once, no hash is reported successful twice. -/
theorem no_replay {st : ChainState C S} {inputs : List BlockInput}
    (hrange : ∀ a, (st.db.account a).nonce ≤ u64Max)
    (hbytes : ∀ tx, env.signableBytes tx = tx.signableBytes curveJson)
    (hfree : CollisionFree env (inputs.flatMap (·.block.transactions)))
    (hguard : ∀ x ∈ trace (nextState env) st inputs,
      guardedBlock env (sentHashes env inputs) x.1 x.2) :
    (runSuccesses env st inputs).Nodup := by
  rw [List.nodup_iff_count_le_one]
  intro hash
  by_cases hmany : (sentHashes env inputs).count hash ≤ 1
  · exact ((runSuccesses_sublist st inputs).count_le hash).trans hmany
  have hrun : Logged env (inputs.flatMap (·.block.transactions)) hash (runSuccesses env st inputs)
      (run (nextState env) st inputs).db [] := by
    refine run_induction
      (P := fun st hist => Logged env (inputs.flatMap (·.block.transactions)) hash
        (hist.flatMap fun x => successHashes (executeBlock env x.1 x.2).1.txOutcomes) st.db [])
      (G := fun st input => input ∈ inputs ∧ guardedBlock env (sentHashes env inputs) st input)
      (nextState env) ?_ ?_ _ ?_
    · exact ⟨[], by simp, by simp [successHashes], hrange, by simp, by simp⟩
    · intro st hist input hst hg
      obtain ⟨done, hdone, hhashes, hspent⟩ := logged_block hbytes hfree hst
        (fun tx htx => List.mem_flatMap.mpr ⟨input, hg.1, htx⟩) hmany hg.2
      refine ⟨done, hdone, ?_, hspent⟩
      rw [hhashes]
      simp [successHashes]
    · intro x hx
      exact ⟨snd_mem_of_mem_trace _ hx, hguard x hx⟩
  obtain ⟨done, -, hhashes, hspent⟩ := hrun
  rw [successHashes, List.filter_nil, List.map_nil, List.append_nil] at hhashes
  have hcount := List.nodup_iff_count_le_one.mp hspent.nodup hash
  rwa [hhashes, List.count_filter (p := (· == hash)) (beq_self_eq_true hash)] at hcount

/-- Signed bytes are hashed to their last bytes. -/
def hashingChain : ChainEnv Unit Unit :=
  { simpleChain with
    signableBytes := Transaction.signableBytes fun _ => []
    blake3 := fun bytes => List.Vector.ofFn fun i => bytes.reverse.getD i 0 }

/-- One unit from the first account to the second. -/
def payment (nonce : ℕ) : TxBody :=
  .transfer { fromAddr := addressOf 1, toAddr := addressOf 2, amount := 1, nonce := nonce }

def smallObject : StateObject where
  id := addressOf 9
  owner := addressOf 1
  energy := 100
  halfLife := 100
  createdAt := 0
  lastRefreshed := 0
  state := .active
  graceEpoch := none
  data := []
  decayCurve := none
  ladMode := none

/-- The account and its object. -/
def payingState : ChainState Unit Unit :=
  freshState ((Ledger.empty.putObject smallObject).fund (addressOf 1) 10)

/-- A refresh and two payments, the first of which is sent again. -/
def paymentRun : List BlockInput :=
  [freeBlock 1 0 [payment 0, .refresh ⟨addressOf 9, 5⟩], freeBlock 2 1 [payment 0, payment 1]]

theorem no_replay_paymentRun :
    (runSuccesses hashingChain payingState paymentRun).length = 3 ∧
      (runSuccesses hashingChain payingState paymentRun).Nodup := by
  have hrange : ∀ a, (payingState.db.account a).nonce ≤ u64Max := by
    intro a
    simp only [payingState, freshState, Ledger.fund, Ledger.toStateDb_updateAccount,
      StateDb.account_updateAccount]
    split_ifs <;> exact Nat.zero_le _
  have hfree : CollisionFree hashingChain (paymentRun.flatMap (·.block.transactions)) := by
    unfold CollisionFree
    decide +kernel
  exact ⟨by decide +kernel, no_replay hrange (fun _ => rfl) hfree (by decide +kernel)⟩

/-- A refresh that is sent twice succeeds twice. -/
theorem refresh_replayed :
    ¬(runSuccesses hashingChain (freshState (Ledger.empty.putObject smallObject))
      [freeBlock 1 0 [.refresh { objectId := addressOf 9, energyDeposit := 5 }],
        freeBlock 2 1 [.refresh { objectId := addressOf 9, energyDeposit := 5 }]]).Nodup := by
  decide +kernel

end Simple

end EvaporChain
