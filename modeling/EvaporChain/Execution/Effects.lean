import EvaporChain.Execution.SimpleExecutor

/-!
# Effects of the handlers

For every handler, what it may have written when it fails, and the checks that held with what was
written when it succeeds. Later results about blocks are read off these inversions.
-/

namespace EvaporChain

open Core Option

namespace Simple

/-- A database that differs at most by accounts created empty. -/
def Untouched (db db' : Ledger) : Prop :=
  ∃ addrs : List AccountAddress, db' = addrs.foldl Ledger.touchAccount db

lemma Untouched.refl (db : Ledger) : Untouched db db := ⟨[], rfl⟩

lemma Untouched.touch (db : Ledger) (addr : AccountAddress) : Untouched db (db.touchAccount addr) :=
  ⟨[addr], rfl⟩

lemma Untouched.trans {db db' db'' : Ledger} (h : Untouched db db') (h' : Untouched db' db'') :
    Untouched db db'' := by
  obtain ⟨addrs, rfl⟩ := h
  obtain ⟨addrs', rfl⟩ := h'
  exact ⟨addrs ++ addrs', (List.foldl_append ..).symm⟩

lemma Untouched.account {db db' : Ledger} (h : Untouched db db') (a : AccountAddress) :
    db'.account a = db.account a := by
  obtain ⟨addrs, rfl⟩ := h
  exact foldl_keeps _ (g := fun db : Ledger => db.account a)
    (fun db addr => Ledger.account_touchAccount db addr a) addrs db

/-- A failure of a handler that uses up a nonce before its last check: the nonce was wrong and
nothing happened, or it was right and is used up by `f`. -/
inductive NonceFailure (f : Account → Account) (addr : AccountAddress) (nonce : ℕ)
    (db db' : Ledger) : Prop
  | wrong (ne : (db.account addr).nonce ≠ nonce) (untouched : Untouched db db')
  | used (eq : (db.account addr).nonce = nonce) (db_eq : db' = db.updateAccount addr f)

/-- A vote on a proposal that is still open though its time is over. -/
def IsLateVote (epoch : ℕ) (tx : GovernanceTx) (db : Ledger) : Prop :=
  ∃ proposalId vote proposal, tx.action = .castVote proposalId vote ∧
    db.proposals.lookup proposalId = some proposal ∧ proposal.status = .active ∧
    proposal.endEpoch < epoch

section Ledger

variable {epoch : ℕ} {db db' : Ledger} {e : ExecutionError}

/-! ### Transfers and objects -/

lemma executeTransfer_error {tx : TransferTx}
    (h : executeTransfer epoch tx db = (.error e, db')) : Untouched db db' := by
  simp only [executeTransfer] at h
  split_ifs at h <;> cases h
  · exact .refl db
  · exact .refl db
  · exact .touch db _
  · exact .touch db _

lemma executeTransfer_ok {tx : TransferTx} (h : executeTransfer epoch tx db = (.ok (), db')) :
    tx.fromAddr ≠ tx.toAddr ∧ tx.amount ≠ 0 ∧
      (tx.fromAddr = Hash.zero ∨ (db.account tx.fromAddr).nonce = tx.nonce) ∧
      tx.amount ≤ spendable epoch tx (db.account tx.fromAddr) ∧
      db' = (db.updateAccount tx.fromAddr (payTransfer epoch tx)).updateAccount tx.toAddr
        (·.credit tx.amount epoch) := by
  simp only [executeTransfer] at h
  split_ifs at h with hself hzero hnonce hlt <;> cases h
  refine ⟨hself, hzero, ?_, not_lt.mp hlt, rfl⟩
  rwa [not_and_or, not_not, not_not] at hnonce

lemma spendable_le (epoch : ℕ) (tx : TransferTx) (acct : Account) :
    spendable epoch tx acct ≤ acct.balance := by
  unfold spendable
  split_ifs
  · exact le_rfl
  · exact acct.transferableBalance_le epoch

@[simp] lemma balance_payTransfer (epoch : ℕ) (tx : TransferTx) (acct : Account) :
    (payTransfer epoch tx acct).balance = acct.balance - tx.amount := by
  unfold payTransfer
  split_ifs <;> rfl

lemma executeRefund_error {tx : RefundTx}
    (h : executeRefund epoch tx db = (.error e, db')) : Untouched db db' := by
  simp only [executeRefund] at h
  split_ifs at h <;> cases h
  · exact .refl db
  · exact .refl db
  · exact .touch db _

lemma chargeDeposit_error {addr : AccountAddress} {bytes : ℕ}
    (h : chargeDeposit epoch addr bytes db = (.error e, db')) :
    (db.account addr).transferableBalance epoch < minStorageDeposit ∧
      db' = db.touchAccount addr := by
  simp only [chargeDeposit] at h
  split_ifs at h with hlt <;> cases h
  exact ⟨hlt, rfl⟩

lemma chargeDeposit_ok {addr : AccountAddress} {bytes : ℕ}
    (h : chargeDeposit epoch addr bytes db = (.ok (), db')) :
    minStorageDeposit ≤ (db.account addr).transferableBalance epoch ∧
      db' = db.updateAccount addr (·.lockDeposit bytes epoch) := by
  simp only [chargeDeposit] at h
  split_ifs at h with hlt <;> cases h
  exact ⟨not_lt.mp hlt, rfl⟩

lemma executeCreateObject_error {tx : CreateObjectTx}
    (h : executeCreateObject epoch tx db = (.error e, db')) : Untouched db db' := by
  unfold executeCreateObject at h
  split_ifs at h
  · cases h
    exact .refl db
  · split at h <;> cases h
    rename_i hcharge
    rw [(chargeDeposit_error hcharge).2]
    exact .touch db _

lemma executeCreateObject_ok {tx : CreateObjectTx}
    (h : executeCreateObject epoch tx db = (.ok (), db')) :
    db.objects tx.objectId = none ∧
      minStorageDeposit ≤ (db.account tx.creator).transferableBalance epoch ∧
      db' = (db.updateAccount tx.creator
        (·.lockDeposit (satAdd 97 tx.data.length) epoch)).putObject (tx.object epoch) := by
  unfold executeCreateObject at h
  split_ifs at h with hsome
  · cases h
  · split at h <;> cases h
    rename_i hcharge
    obtain ⟨hle, rfl⟩ := chargeDeposit_ok hcharge
    exact ⟨Option.not_isSome_iff_eq_none.mp hsome, hle, rfl⟩

lemma executeRefresh_error {sender : Option AccountAddress} {tx : RefreshTx}
    (h : executeRefresh epoch sender tx db = (.error e, db')) : db' = db := by
  unfold executeRefresh refresh resurrect at h
  split at h <;> (repeat' split at h) <;> cases h <;> rfl

lemma executeRefresh_ok {sender : Option AccountAddress} {tx : RefreshTx}
    (h : executeRefresh epoch sender tx db = (.ok (), db')) :
    ∃ obj, obj.id = tx.objectId ∧ ((db.objects tx.objectId).isSome ∧ db' = db.putObject obj ∨
        db' = (db.removeGhost tx.objectId).putObject obj) := by
  unfold executeRefresh refresh resurrect at h
  split at h
  · rename_i obj _ hobj
    have hid := db.id_eq hobj
    have hsome : (db.objects tx.objectId).isSome := isSome_of_eq_some hobj
    (repeat' split at h) <;> cases h
    all_goals refine ⟨_, ?_, Or.inl ⟨hsome, rfl⟩⟩
    all_goals exact hid
  · (repeat' split at h) <;> cases h
    refine ⟨_, ?_, Or.inr rfl⟩
    rfl
  · cases h

/-! ### Stakes -/

lemma executeValidatorStake_error {tx : ValidatorStakeTx}
    (h : executeValidatorStake epoch tx db = (.error e, db')) : Untouched db db' := by
  simp only [executeValidatorStake] at h
  split_ifs at h <;> cases h
  · exact .refl db
  · exact .touch db _
  · exact .touch db _

lemma executeValidatorStake_ok {tx : ValidatorStakeTx}
    (h : executeValidatorStake epoch tx db = (.ok (), db')) :
    (db.account tx.validatorAddress).nonce = tx.nonce ∧
      tx.stakeAmount ≤ (db.account tx.validatorAddress).transferableBalance epoch ∧
      db' = (db.updateAccount tx.validatorAddress fun acct =>
        (acct.debit tx.stakeAmount epoch).bumpNonce epoch).putStake
          (stakeOf epoch tx (db.stakes.lookup tx.validatorId)) := by
  simp only [executeValidatorStake] at h
  split_ifs at h with hzero hnonce hlt <;> cases h
  exact ⟨not_not.mp hnonce, not_lt.mp hlt, rfl⟩

lemma executeValidatorExit_error {tx : ValidatorExitTx}
    (h : executeValidatorExit epoch tx db = (.error e, db')) :
    NonceFailure (·.bumpNonce epoch) tx.validatorAddress tx.nonce db db' := by
  simp only [executeValidatorExit] at h
  split at h
  · rename_i hnonce
    cases h
    exact .wrong hnonce (.touch db _)
  · rename_i hnonce
    (repeat' split at h) <;> cases h <;> exact .used (not_not.mp hnonce) rfl

lemma executeValidatorExit_ok {tx : ValidatorExitTx}
    (h : executeValidatorExit epoch tx db = (.ok (), db')) :
    (db.account tx.validatorAddress).nonce = tx.nonce ∧
      ∃ stake, db.stakes.lookup tx.validatorId = some stake ∧
        stake.validatorAddress = tx.validatorAddress ∧ stake.unbondingEpoch = none ∧
        db' = (db.updateAccount tx.validatorAddress (·.bumpNonce epoch)).putStake
          { stake with unbondingEpoch := some ((epoch + unbondingPeriodEpochs) % 2 ^ 64) } := by
  simp only [executeValidatorExit] at h
  split_ifs at h with hnonce
  · cases h
  · split at h
    · cases h
    · rename_i stake hstake
      split_ifs at h with haddr hexit <;> cases h
      exact ⟨not_not.mp hnonce, stake, hstake, not_not.mp haddr,
        Option.not_isSome_iff_eq_none.mp hexit, rfl⟩

lemma executeValidatorClaimStake_error {tx : ValidatorClaimStakeTx}
    (h : executeValidatorClaimStake epoch tx db = (.error e, db')) : Untouched db db' := by
  unfold executeValidatorClaimStake at h
  split at h
  · cases h
    exact .refl db
  · split_ifs at h
    · cases h
      exact .refl db
    · split at h
      · cases h
        exact .refl db
      · dsimp only at h
        split_ifs at h <;> cases h
        · exact .refl db
        · exact .touch db _

lemma executeValidatorClaimStake_ok {tx : ValidatorClaimStakeTx}
    (h : executeValidatorClaimStake epoch tx db = (.ok (), db')) :
    (db.account tx.validatorAddress).nonce = tx.nonce ∧
      ∃ stake, db.stakes.lookup tx.validatorId = some stake ∧
        stake.validatorAddress = tx.validatorAddress ∧
        db' = (db.updateAccount tx.validatorAddress
          (·.claim stake.claimable epoch)).removeStake tx.validatorId := by
  unfold executeValidatorClaimStake at h
  split at h
  · cases h
  · rename_i stake hstake
    split_ifs at h with haddr
    · cases h
    · split at h
      · cases h
      · dsimp only at h
        split_ifs at h with hepoch hnonce <;> cases h
        exact ⟨not_not.mp hnonce, stake, hstake, not_not.mp haddr, rfl⟩

/-! ### Delegations -/

lemma executeDelegate_error {tx : DelegateTx}
    (h : executeDelegate epoch tx db = (.error e, db')) : Untouched db db' := by
  simp only [executeDelegate] at h
  split_ifs at h <;> cases h
  · exact .refl db
  · exact .refl db
  · exact .touch db _
  · exact .touch db _

lemma executeDelegate_ok {tx : DelegateTx} (h : executeDelegate epoch tx db = (.ok (), db')) :
    (db.account tx.delegator).nonce = tx.nonce ∧
      tx.amount ≤ (db.account tx.delegator).transferableBalance epoch ∧
      db' = (db.updateAccount tx.delegator fun acct =>
        (acct.debit tx.amount epoch).bumpNonce epoch).putDelegation
          (delegationOf epoch tx (db.delegations.lookup (tx.delegator, tx.validatorId))) := by
  simp only [executeDelegate] at h
  split_ifs at h with hzero hstake hnonce hlt <;> cases h
  exact ⟨not_not.mp hnonce, not_lt.mp hlt, rfl⟩

lemma executeUndelegate_error {tx : UndelegateTx}
    (h : executeUndelegate epoch tx db = (.error e, db')) :
    tx.amount = 0 ∧ db' = db ∨
      tx.amount ≠ 0 ∧ NonceFailure (·.bumpNonce epoch) tx.delegator tx.nonce db db' := by
  simp only [executeUndelegate] at h
  split at h
  · rename_i hzero
    cases h
    exact .inl ⟨hzero, rfl⟩
  · rename_i hzero
    refine .inr ⟨hzero, ?_⟩
    split at h
    · rename_i hnonce
      cases h
      exact .wrong hnonce (.touch db _)
    · rename_i hnonce
      (repeat' split at h) <;> cases h <;> exact .used (not_not.mp hnonce) rfl

lemma executeUndelegate_ok {tx : UndelegateTx} (h : executeUndelegate epoch tx db = (.ok (), db')) :
    (db.account tx.delegator).nonce = tx.nonce ∧
      ∃ record, db.delegations.lookup (tx.delegator, tx.validatorId) = some record ∧
        tx.amount ≤ record.amount ∧
        db' = (db.updateAccount tx.delegator (·.bumpNonce epoch)).putDelegation
          (record.unbond tx.amount epoch) := by
  simp only [executeUndelegate] at h
  split_ifs at h with hzero hnonce
  · cases h
  · cases h
  · split at h
    · cases h
    · rename_i record hrecord
      split_ifs at h with hlt <;> cases h
      exact ⟨not_not.mp hnonce, record, hrecord, not_lt.mp hlt, rfl⟩

lemma executeClaimDelegation_error {tx : ClaimDelegationTx}
    (h : executeClaimDelegation epoch tx db = (.error e, db')) :
    NonceFailure (·.bumpNonce epoch) tx.delegator tx.nonce db db' := by
  simp only [executeClaimDelegation] at h
  split at h
  · rename_i hnonce
    cases h
    exact .wrong hnonce (.touch db _)
  · rename_i hnonce
    (repeat' split at h) <;> cases h <;> exact .used (not_not.mp hnonce) rfl

lemma executeClaimDelegation_ok {tx : ClaimDelegationTx}
    (h : executeClaimDelegation epoch tx db = (.ok (), db')) :
    (db.account tx.delegator).nonce = tx.nonce ∧
      ∃ record, db.delegations.lookup (tx.delegator, tx.validatorId) = some record ∧
        (∃ started, record.unbondingEpoch = some started ∧
          satAdd started unbondingPeriodEpochs ≤ epoch) ∧
        let paid := (db.updateAccount tx.delegator (·.bumpNonce epoch)).adjustAccount tx.delegator
          (·.credit record.unbondingAmount epoch)
        (record.amount = 0 ∧ db' = paid.removeDelegation tx.delegator tx.validatorId ∨
          db' = paid.putDelegation record.release) := by
  simp only [executeClaimDelegation] at h
  split_ifs at h with hnonce
  · cases h
  · split at h
    · cases h
    · rename_i record hrecord
      split at h
      · cases h
      · split at h
        · cases h
        · rename_i started hstarted
          split_ifs at h with hready hamount <;> cases h
          all_goals refine ⟨not_not.mp hnonce, record, hrecord,
            ⟨started, hstarted, not_lt.mp hready⟩, ?_⟩
          · exact Or.inl ⟨hamount, rfl⟩
          · exact Or.inr rfl

/-! ### Governance, multi-signature accounts and keys -/

lemma castVote_ok {voter : AccountAddress} {proposalId : ℕ} {vote : Bool}
    (h : castVote epoch voter proposalId vote db = (.ok (), db')) :
    ∃ p, db.proposals.lookup proposalId = some p ∧ p.status = .active ∧ epoch ≤ p.endEpoch ∧
      voter ∉ p.voters ∧
      db' = db.putProposal (recordVote p voter (db.account voter).balance vote) := by
  unfold castVote at h
  split at h
  · cases h
  · rename_i p hlookup
    split_ifs at h with hstatus hend hvoted <;> cases h
    exact ⟨p, hlookup, not_not.mp hstatus, not_lt.mp hend, hvoted, rfl⟩

variable {valid : String → Except String Unit}

lemma executeGovernance_error {tx : GovernanceTx}
    (h : executeGovernance epoch valid tx db = (.error e, db')) :
    NonceFailure (·.bumpNonce epoch) tx.sender tx.nonce db db' ∧
        ((db.account tx.sender).nonce = tx.nonce → ¬IsLateVote epoch tx db) ∨
      (db.account tx.sender).nonce = tx.nonce ∧ ∃ proposalId vote proposal,
        tx.action = .castVote proposalId vote ∧
        db.proposals.lookup proposalId = some proposal ∧ proposal.status = .active ∧
        proposal.endEpoch < epoch ∧
        db' = (db.updateAccount tx.sender (·.bumpNonce epoch)).putProposal
          { proposal with status := decideProposalOutcome proposal } := by
  simp only [executeGovernance] at h
  split at h
  · rename_i hnonce
    cases h
    exact .inl ⟨.wrong hnonce (.touch db _), fun hn => absurd hn hnonce⟩
  · rename_i hnonce
    have hnonce := not_not.mp hnonce
    split at h
    · rename_i proposalId vote haction
      unfold castVote at h
      split at h
      · rename_i hproposal
        cases h
        refine .inl ⟨.used hnonce rfl, ?_⟩
        rintro - ⟨_, _, proposal, haction', hproposal', -⟩
        cases haction.symm.trans haction'
        cases hproposal.symm.trans hproposal'
      · rename_i proposal hproposal
        split_ifs at h with hstatus hend <;> cases h
        · refine .inl ⟨.used hnonce rfl, ?_⟩
          rintro - ⟨_, _, _, haction', hproposal', hactive, -⟩
          cases haction.symm.trans haction'
          cases hproposal.symm.trans hproposal'
          exact hstatus hactive
        · exact .inr ⟨hnonce, proposalId, vote, proposal, haction, hproposal, not_not.mp hstatus,
            hend, rfl⟩
        · refine .inl ⟨.used hnonce rfl, ?_⟩
          rintro - ⟨_, _, _, haction', hproposal', -, hlate⟩
          cases haction.symm.trans haction'
          cases hproposal.symm.trans hproposal'
          exact hend hlate
    · rename_i haction
      split at h <;> cases h
      refine .inl ⟨.used hnonce rfl, ?_⟩
      rintro - ⟨_, _, _, haction', -⟩
      cases haction.symm.trans haction'

lemma executeGovernance_ok {tx : GovernanceTx}
    (h : executeGovernance epoch valid tx db = (.ok (), db')) :
    (db.account tx.sender).nonce = tx.nonce ∧ ∃ proposal,
      db' = (db.updateAccount tx.sender (·.bumpNonce epoch)).putProposal proposal := by
  simp only [executeGovernance] at h
  split_ifs at h with hnonce
  · cases h
  · refine ⟨not_not.mp hnonce, ?_⟩
    split at h
    · obtain ⟨_, -, -, -, -, hdb⟩ := castVote_ok h
      exact ⟨_, hdb⟩
    · split at h <;> cases h
      exact ⟨_, rfl⟩

lemma executeMultisig_error {tx : MultiSigTx}
    (h : executeMultisig epoch tx db = (.error e, db')) : Untouched db db' := by
  simp only [executeMultisig] at h
  (repeat' split at h) <;> cases h
  · exact .refl db
  · exact .refl db
  · exact .touch db _

lemma executeMultisig_ok {tx : MultiSigTx} (h : executeMultisig epoch tx db = (.ok (), db')) :
    (db.account tx.multisigAddress).nonce = tx.nonce ∧
      db' = db.updateAccount tx.multisigAddress (·.bumpNonce epoch) := by
  simp only [executeMultisig] at h
  (repeat' split at h) <;> cases h
  rename_i hnonce
  exact ⟨not_not.mp hnonce, rfl⟩

variable {verifyPop : Bytes → Bytes → Bool}

lemma executeRotateValidatorKey_error {rot : RotateValidatorKeyTx}
    (h : executeRotateValidatorKey epoch verifyPop rot db = (.error e, db')) : db' = db := by
  simp only [executeRotateValidatorKey] at h
  (repeat' split at h) <;> cases h <;> rfl

lemma executeRotateValidatorKey_ok {rot : RotateValidatorKeyTx}
    (h : executeRotateValidatorKey epoch verifyPop rot db = (.ok (), db')) :
    (db.account rot.validatorAddress).nonce = rot.nonce ∧
      (∃ stake, db.stakes.lookup rot.validatorId = some stake ∧
        stake.validatorAddress = rot.validatorAddress) ∧
      db' = db.adjustAccount rot.validatorAddress (·.saturateNonce epoch) := by
  simp only [executeRotateValidatorKey] at h
  (repeat' split at h) <;> cases h
  rename_i stake hstake haddr hnonce _
  exact ⟨(not_not.mp hnonce).symm, ⟨stake, hstake, not_not.mp haddr⟩, rfl⟩

end Ledger

/-! ### Contracts and scripts -/

section Engines

variable {C S : Type} {env : ChainEnv C S} {cfg : ExecConfig} {epoch : ℕ} {st st' : ChainState C S}
  {e : ExecutionError}

lemma leaveCall_eq {depth : ℕ} (h : depth < maxCallDepth) : leaveCall depth = depth := by
  unfold maxCallDepth at h
  unfold leaveCall satAdd u64Max
  omega

lemma onLedger_eq {f : Ledger → Handled Ledger} {r : Except ExecutionError Unit}
    (h : onLedger f st = (r, st')) : ∃ db, f st.db = (r, db) ∧ st' = { st with db := db } := by
  cases h
  exact ⟨_, rfl, rfl⟩

/-- The arguments of a deployment are in order and its deposit can be paid. -/
def LocksDeposit (env : ChainEnv C S) (epoch : ℕ) (tx : DeployContractTx) (db : Ledger) : Prop :=
  tx.template ∈ contractTemplates ∧ env.jsonError tx.initArgs = none ∧
    tx.rules.bind env.rulesError = none ∧
    minStorageDeposit ≤ (db.account tx.deployer).transferableBalance epoch

lemma executeDeployContract_error {tx : DeployContractTx}
    (h : executeDeployContract env epoch tx st = (.error e, st')) :
    ∃ db, st' = { st with db := db } ∧ (¬LocksDeposit env epoch tx st.db ∧ Untouched st.db db ∨
      LocksDeposit env epoch tx st.db ∧
        ∃ bytes, db = st.db.updateAccount tx.deployer (·.lockDeposit bytes epoch)) := by
  unfold executeDeployContract at h
  unfold LocksDeposit
  dsimp only at h
  split at h
  · rename_i htemplate
    cases h
    exact ⟨st.db, rfl, .inl ⟨fun hlocks => htemplate hlocks.1, .refl _⟩⟩
  · rename_i htemplate
    split at h
    · rename_i hjson
      cases h
      exact ⟨st.db, rfl, .inl ⟨fun hlocks => by simp [hjson] at hlocks, .refl _⟩⟩
    · rename_i hrules
      cases h
      exact ⟨st.db, rfl, .inl ⟨fun hlocks => by simp [hrules] at hlocks, .refl _⟩⟩
    · rename_i hjson hrules
      split at h
      · rename_i hcharge
        cases h
        obtain ⟨hlt, rfl⟩ := chargeDeposit_error hcharge
        exact ⟨_, rfl, .inl ⟨fun hlocks => hlt.not_ge hlocks.2.2.2, .touch _ _⟩⟩
      · rename_i hcharge
        obtain ⟨hle, rfl⟩ := chargeDeposit_ok hcharge
        split at h <;> cases h
        exact ⟨_, rfl, .inr ⟨⟨not_not.mp htemplate, hjson, hrules, hle⟩, _, rfl⟩⟩

lemma executeDeployContract_ok {tx : DeployContractTx}
    (h : executeDeployContract env epoch tx st = (.ok (), st')) :
    ∃ bytes engine, minStorageDeposit ≤ (st.db.account tx.deployer).transferableBalance epoch ∧
      st' = { st with
        db := st.db.updateAccount tx.deployer (·.lockDeposit bytes epoch)
        contractEngine := engine } := by
  simp only [executeDeployContract] at h
  split at h
  · cases h
  · split at h
    · cases h
    · cases h
    · split at h
      · cases h
      · rename_i hcharge
        obtain ⟨hle, rfl⟩ := chargeDeposit_ok hcharge
        split at h <;> cases h
        exact ⟨_, _, hle, rfl⟩

lemma executeCallContract_error {tx : CallContractTx}
    (h : executeCallContract env tx st = (.error e, st')) :
    st' = st ∨ ∃ msg engine,
      env.contracts.call st.contractEngine tx.contractId tx.method tx.args tx.caller tx.epoch =
        (.error msg, engine) ∧ st' = { st with contractEngine := engine } := by
  unfold executeCallContract at h
  split at h
  · cases h
    exact Or.inl rfl
  · rename_i hdepth
    rw [leaveCall_eq (not_le.mp hdepth)] at h
    split at h
    · cases h
      exact Or.inl rfl
    · split at h
      · cases h
        exact Or.inl rfl
      · split at h
        rename_i result engine hcall
        cases result with
        | ok u => cases h
        | error msg =>
          cases h
          exact Or.inr ⟨msg, engine, hcall, rfl⟩

lemma executeCallContract_ok {tx : CallContractTx}
    (h : executeCallContract env tx st = (.ok (), st')) :
    ∃ engine, st' = { st with contractEngine := engine } := by
  unfold executeCallContract at h
  split at h
  · cases h
  · rename_i hdepth
    rw [leaveCall_eq (not_le.mp hdepth)] at h
    split at h
    · cases h
    · split at h
      · cases h
      · exact ⟨_, (Prod.mk.inj h).2.symm⟩

lemma executeDeployScript_error {tx : DeployScriptTx}
    (h : executeDeployScript env epoch tx st = (.error e, st')) : ∃ db, st' = { st with db := db } ∧
      ((st.db.account tx.deployer).transferableBalance epoch < minStorageDeposit ∧
          Untouched st.db db ∨
        minStorageDeposit ≤ (st.db.account tx.deployer).transferableBalance epoch ∧
          ∃ bytes, db = st.db.updateAccount tx.deployer (·.lockDeposit bytes epoch)) := by
  simp only [executeDeployScript] at h
  split at h
  · rename_i hcharge
    cases h
    obtain ⟨hlt, rfl⟩ := chargeDeposit_error hcharge
    exact ⟨_, rfl, .inl ⟨hlt, .touch _ _⟩⟩
  · rename_i hcharge
    obtain ⟨hle, rfl⟩ := chargeDeposit_ok hcharge
    (repeat' split at h) <;> cases h
    · exact ⟨_, rfl, .inr ⟨hle, _, rfl⟩⟩
    · exact ⟨_, rfl, .inr ⟨hle, _, rfl⟩⟩

lemma executeCallScript_error {tx : CallScriptTx}
    (h : executeCallScript env tx st = (.error e, st')) : st' = st := by
  simp only [executeCallScript] at h
  split at h
  · cases h
    rfl
  · rename_i hdepth
    rw [leaveCall_eq (not_le.mp hdepth)] at h
    (repeat' split at h) <;> cases h <;> rfl

lemma executeCallScript_ok {tx : CallScriptTx} (h : executeCallScript env tx st = (.ok (), st')) :
    ∃ engine, st' = { st with scriptEngine := engine } := by
  simp only [executeCallScript] at h
  split at h
  · cases h
  · rename_i hdepth
    rw [leaveCall_eq (not_le.mp hdepth)] at h
    (repeat' split at h) <;> cases h
    exact ⟨_, rfl⟩

lemma stampCaller_error {caller : AccountAddress} {r : Handled (ChainState C S)}
    (h : stampCaller epoch caller r = (.error e, st')) : r = (.error e, st') := by
  unfold stampCaller at h
  split at h
  · cases h
  · exact h

lemma executeDeployTemplate_error {tx : DeployTemplateTx}
    (h : executeDeployTemplate env epoch tx st = (.error e, st')) : st' = st := by
  unfold executeDeployTemplate at h
  split at h
  · cases h
    rfl
  · cases stampCaller_error h

/-! ### Sponsored operations -/

variable {tx : UserOpTx}

lemma checkUserOp_error {db db' : Ledger}
    (h : checkUserOp env cfg tx db = (.error e, db')) : Untouched db db' := by
  simp only [checkUserOp] at h
  (repeat' split at h) <;> cases h
  · exact .touch db _
  · exact .touch db _
  · exact (Untouched.touch db _).trans (.touch _ _)
  · exact (Untouched.touch db _).trans (.touch _ _)

lemma checkUserOp_ok {db db' : Ledger} {sponsor : Option (AccountAddress × ℕ)}
    (h : checkUserOp env cfg tx db = (.ok sponsor, db')) :
    (db.account tx.sender).nonce = tx.nonce ∧ Untouched db db' ∧
      (sponsor = none ∧ tx.paymaster = none ∨ ∃ paymaster cost,
        sponsor = some (paymaster, cost) ∧ tx.paymaster = some paymaster ∧
        cost ≤ ((db.touchAccount tx.sender).account paymaster).balance) := by
  simp only [checkUserOp] at h
  split at h
  · cases h
  · rename_i hnonce
    refine ⟨not_not.mp hnonce, ?_⟩
    split at h
    · rename_i hnone
      cases h
      exact ⟨.touch db _, Or.inl ⟨rfl, hnone⟩⟩
    · rename_i paymaster hpaymaster
      (repeat' split at h) <;> cases h
      rename_i hcost
      refine ⟨(Untouched.touch db _).trans (.touch _ _), Or.inr ⟨_, _, rfl, hpaymaster, ?_⟩⟩
      exact not_lt.mp hcost

variable {sender : AccountAddress}

lemma executeInnerTransfer_error {tx : TransferTx} {db db' : Ledger}
    (h : executeInnerTransfer epoch tx sender db = (.error e, db')) : Untouched db db' := by
  simp only [executeInnerTransfer] at h
  split_ifs at h <;> cases h
  · exact .refl db
  · exact .refl db
  · exact .refl db
  · exact .touch db _

lemma executeInner_error {inner : Transaction}
    (h : executeInner env epoch sender inner st = (.error e, st')) :
    (∃ db, Untouched st.db db ∧ st' = { st with db := db }) ∨
      ∃ (tx : CallContractTx) (msg : String) (engine : C),
      env.contracts.call st.contractEngine tx.contractId tx.method tx.args tx.caller tx.epoch =
        (.error msg, engine) ∧ st' = { st with contractEngine := engine } := by
  have unchanged : ∃ db, Untouched st.db db ∧ st = { st with db := db } :=
    ⟨st.db, .refl _, rfl⟩
  unfold executeInner at h
  split at h
  · obtain ⟨db, hdb, rfl⟩ := onLedger_eq h
    exact Or.inl ⟨db, executeInnerTransfer_error hdb, rfl⟩
  · split at h
    · cases h
      exact Or.inl unchanged
    · rw [executeCallScript_error h]
      exact Or.inl unchanged
  · rename_i tx _
    split at h
    · cases h
      exact Or.inl unchanged
    · rcases executeCallContract_error h with rfl | ⟨msg, engine, hcall, rfl⟩
      · exact Or.inl unchanged
      · exact Or.inr ⟨tx, msg, engine, hcall, rfl⟩
  · split at h <;> cases h <;> exact Or.inl unchanged

/-- What an operation can do besides using up nonces. -/
inductive InnerDone (epoch : ℕ) (sender : AccountAddress) (st : ChainState C S) :
    ChainState C S → Prop
  | noop : InnerDone epoch sender st st
  | transfer (tx : TransferTx) (sender_eq : tx.fromAddr = sender)
      (amount_le : tx.amount ≤ (st.db.account tx.fromAddr).transferableBalance epoch)
      (ne : tx.fromAddr ≠ tx.toAddr) :
    InnerDone epoch sender st { st with
      db := (st.db.updateAccount tx.fromAddr (·.debit tx.amount epoch)).updateAccount tx.toAddr
        (·.credit tx.amount epoch) }
  | contract (engine : C) : InnerDone epoch sender st { st with contractEngine := engine }
  | script (engine : S) : InnerDone epoch sender st { st with scriptEngine := engine }

lemma executeInner_ok {inner : Transaction}
    (h : executeInner env epoch sender inner st = (.ok (), st')) :
    InnerDone epoch sender st st' := by
  unfold executeInner at h
  split at h
  · obtain ⟨db, hdb, rfl⟩ := onLedger_eq h
    simp only [executeInnerTransfer] at hdb
    split_ifs at hdb with hsender hself hzero hlt <;> cases hdb
    exact .transfer _ (not_not.mp hsender) (not_lt.mp hlt) hself
  · split at h
    · cases h
    · obtain ⟨engine, rfl⟩ := executeCallScript_ok h
      exact .script engine
  · split at h
    · cases h
    · obtain ⟨engine, rfl⟩ := executeCallContract_ok h
      exact .contract engine
  · split at h <;> cases h

lemma executeUserOp_error (h : executeUserOp env cfg epoch tx st = (.error e, st')) :
    (∃ db, checkUserOp env cfg tx st.db = (.error e, db) ∧ st' = { st with db := db }) ∨
      ∃ sponsor db,
      checkUserOp env cfg tx st.db = (.ok sponsor, db) ∧
      let st₁ := { st with db := applyUserOp epoch tx sponsor db }
      ((∃ db, Untouched st₁.db db ∧ st' = { st₁ with db := db }) ∨
        ∃ (tx : CallContractTx) (msg : String) (engine : C),
        env.contracts.call st.contractEngine tx.contractId tx.method tx.args tx.caller tx.epoch =
          (.error msg, engine) ∧ st' = { st₁ with contractEngine := engine }) := by
  unfold executeUserOp at h
  split at h
  · rename_i hcheck
    cases h
    exact Or.inl ⟨_, hcheck, rfl⟩
  · rename_i sponsor db hcheck
    refine Or.inr ⟨sponsor, db, hcheck, ?_⟩
    split at h
    · cases h
    · split at h
      · cases h
        exact Or.inl ⟨_, .refl _, rfl⟩
      · exact executeInner_error h

lemma executeUserOp_ok (h : executeUserOp env cfg epoch tx st = (.ok (), st')) :
    ∃ sponsor db, checkUserOp env cfg tx st.db = (.ok sponsor, db) ∧
      InnerDone epoch tx.sender { st with db := applyUserOp epoch tx sponsor db } st' := by
  unfold executeUserOp at h
  split at h
  · cases h
  · rename_i sponsor db hcheck
    refine ⟨sponsor, db, hcheck, ?_⟩
    split at h
    · cases h
      exact .noop
    · split at h
      · cases h
      · exact executeInner_ok h

/-! ### Upgrades and deferred transactions -/

lemma executeUpgradeContract_error {tx : UpgradeContractTx}
    (h : executeUpgradeContract env epoch tx st = (.error e, st')) :
    ∃ db, st' = { st with db := db } ∧
      NonceFailure (·.saturateNonce epoch) tx.owner tx.nonce st.db db := by
  simp only [executeUpgradeContract] at h
  split at h
  · rename_i hnonce
    cases h
    exact ⟨_, rfl, .wrong hnonce (.touch _ _)⟩
  · rename_i hnonce
    split at h <;> cases h
    exact ⟨_, rfl, .used (not_not.mp hnonce) rfl⟩

lemma executeUpgradeContract_ok {tx : UpgradeContractTx}
    (h : executeUpgradeContract env epoch tx st = (.ok (), st')) :
    (st.db.account tx.owner).nonce = tx.nonce ∧
      ∃ engine, upgradeScript env tx st.scriptEngine = .ok engine ∧ st' = { st with
        db := st.db.updateAccount tx.owner (·.saturateNonce epoch)
        scriptEngine := engine } := by
  simp only [executeUpgradeContract] at h
  split at h
  · cases h
  · rename_i hnonce
    split at h <;> cases h
    rename_i engine hengine
    exact ⟨not_not.mp hnonce, engine, hengine, rfl⟩

lemma executeDeferred_error {tx : DeferredTx}
    (h : executeDeferred tx st = (.error e, st')) : st' = st := by
  unfold executeDeferred at h
  split at h <;> cases h
  rfl

lemma executeDeferred_ok {tx : DeferredTx} (h : executeDeferred tx st = (.ok (), st')) :
    ∃ q, st.deferredQueue.submit tx = .ok q ∧ st' = { st with deferredQueue := q } := by
  unfold executeDeferred at h
  split at h <;> cases h
  exact ⟨_, ‹_›, rfl⟩

/-! ### Dispatch -/

/-- A step that changes only the database and the engines of contracts and scripts. -/
def EngineStep (st st' : ChainState C S) : Prop :=
  ∃ db contractEngine scriptEngine, st' =
    { st with db := db, contractEngine := contractEngine, scriptEngine := scriptEngine }

lemma EngineStep.refl (st : ChainState C S) : EngineStep st st := ⟨_, _, _, rfl⟩

lemma EngineStep.trans {st st' st'' : ChainState C S} (h : EngineStep st st')
    (h' : EngineStep st' st'') : EngineStep st st'' := by
  obtain ⟨_, _, _, rfl⟩ := h
  obtain ⟨_, _, _, rfl⟩ := h'
  exact ⟨_, _, _, rfl⟩

lemma EngineStep.ofDb (st : ChainState C S) (db : Ledger) : EngineStep st { st with db := db } :=
  ⟨_, _, _, rfl⟩

lemma engineStep_callContract (tx : CallContractTx) (st : ChainState C S) :
    EngineStep st (executeCallContract env tx st).2 := by
  rcases h : executeCallContract env tx st with ⟨result, st'⟩
  cases result with
  | error e =>
    rcases executeCallContract_error h with rfl | ⟨_, _, -, rfl⟩
    · exact .refl _
    · exact ⟨_, _, _, rfl⟩
  | ok u =>
    obtain ⟨_, rfl⟩ := executeCallContract_ok h
    exact ⟨_, _, _, rfl⟩

@[simp] lemma db_callContract (tx : CallContractTx) (st : ChainState C S) :
    (executeCallContract env tx st).2.db = st.db := by
  unfold executeCallContract
  (repeat' split) <;> rfl

@[simp] lemma db_callScript (tx : CallScriptTx) (st : ChainState C S) :
    (executeCallScript env tx st).2.db = st.db := by
  simp only [executeCallScript]
  (repeat' split) <;> rfl

lemma engineStep_callScript (tx : CallScriptTx) (st : ChainState C S) :
    EngineStep st (executeCallScript env tx st).2 := by
  rcases h : executeCallScript env tx st with ⟨result, st'⟩
  cases result with
  | error e =>
    rw [executeCallScript_error h]
    exact .refl _
  | ok u =>
    obtain ⟨_, rfl⟩ := executeCallScript_ok h
    exact ⟨_, _, _, rfl⟩

lemma engineStep_stampCaller (caller : AccountAddress) {r : Handled (ChainState C S)}
    (h : EngineStep st r.2) : EngineStep st (stampCaller epoch caller r).2 := by
  unfold stampCaller
  split
  · exact h.trans (.ofDb _ _)
  · exact h

lemma engineStep_inner (sender : AccountAddress) (inner : Transaction) (st : ChainState C S) :
    EngineStep st (executeInner env epoch sender inner st).2 := by
  unfold executeInner
  split
  · exact .ofDb _ _
  · split
    · exact .refl _
    · exact engineStep_callScript _ _
  · split
    · exact .refl _
    · exact engineStep_callContract _ _
  · split <;> exact .refl _

lemma engineStep_userOp (tx : UserOpTx) (st : ChainState C S) :
    EngineStep st (executeUserOp env cfg epoch tx st).2 := by
  unfold executeUserOp
  split
  · exact .ofDb _ _
  · split
    · exact .ofDb _ _
    · split
      · exact .ofDb _ _
      · exact (EngineStep.ofDb _ _).trans (engineStep_inner _ _ _)

lemma engineStep_matured (inner : Bytes) (st : ChainState C S) :
    EngineStep st (executeMatured env epoch inner st).2 := by
  unfold executeMatured
  split
  · exact .refl _
  · split
    · exact .ofDb _ _
    · exact .ofDb _ _
    · exact engineStep_callContract _ _
    · exact engineStep_callScript _ _
    · exact .refl _

/-- Only a deferred transaction reaches anything beyond the database and the two engines. -/
lemma engineStep_dispatch {tx : Transaction} (h : ∀ d, tx.body ≠ .deferred d)
    (st : ChainState C S) : EngineStep st (dispatch env cfg epoch tx st).2 := by
  unfold dispatch
  split
  case h_4 =>
    simp only [executeDeployContract]
    (repeat' split) <;> exact ⟨_, _, _, rfl⟩
  case h_5 => exact engineStep_stampCaller _ (engineStep_callContract _ _)
  case h_6 =>
    simp only [executeDeployScript]
    (repeat' split) <;> exact ⟨_, _, _, rfl⟩
  case h_7 => exact engineStep_stampCaller _ (engineStep_callScript _ _)
  case h_14 d hd => exact absurd hd (h d)
  case h_18 => exact engineStep_userOp _ _
  case h_19 =>
    simp only [executeUpgradeContract]
    (repeat' split) <;> exact ⟨_, _, _, rfl⟩
  case h_25 =>
    unfold executeDeployTemplate
    split
    · exact .refl _
    · exact engineStep_stampCaller _ (.refl _)
  all_goals exact ⟨_, _, _, rfl⟩

/-! ### Transactions -/

variable {tx : Transaction} {db db' : Ledger} {fee : ℕ}

lemma chargeFee_error {error : String} (h : chargeFee cfg epoch fee tx db = (.error error, db')) :
    ∃ addr, tx.sender = some addr ∧ db' = db.touchAccount addr := by
  unfold chargeFee at h
  split at h
  · rename_i addr _ hsender
    dsimp only at h
    split_ifs at h <;> cases h
    exact ⟨addr, hsender, rfl⟩
  · cases h

/-- A fee is charged if there are fees and a sender, and then the sender can pay it. -/
lemma chargeFee_ok (h : chargeFee cfg epoch fee tx db = (.ok (), db')) :
    (cfg.feeController = none ∨ tx.sender = none) ∧ db' = db ∨
      cfg.feeController.isSome ∧ ∃ addr, tx.sender = some addr ∧
        fee ≤ (db.account addr).balance ∧ db' = db.updateAccount addr (·.debit fee epoch) := by
  unfold chargeFee at h
  split at h
  · rename_i fc addr hfc hsender
    dsimp only at h
    split_ifs at h with hlt <;> cases h
    refine Or.inr ⟨?_, addr, hsender, not_lt.mp hlt, rfl⟩
    rw [hfc, isSome_some]
  · rename_i hcases
    cases h
    refine Or.inl ⟨?_, rfl⟩
    cases hfc : cfg.feeController with
    | none => exact Or.inl rfl
    | some fc =>
      cases hsender : tx.sender with
      | none => exact Or.inr rfl
      | some addr => exact absurd hsender (hcases fc addr hfc)

/-- Fees do not raise a balance. -/
lemma balance_deductFee_le (cfg : ExecConfig) (epoch : ℕ) (tx : Transaction) (db : Ledger)
    (addr : AccountAddress) :
    ((deductFee env cfg epoch tx db).2.account addr).balance ≤ (db.account addr).balance := by
  rcases h : deductFee env cfg epoch tx db with ⟨result, db'⟩
  cases result with
  | error e =>
    obtain ⟨_, -, rfl⟩ := chargeFee_error h
    rw [Ledger.account_touchAccount]
  | ok u =>
    rcases chargeFee_ok h with ⟨-, rfl⟩ | ⟨-, a, -, -, rfl⟩
    · exact le_rfl
    · rw [Ledger.toStateDb_updateAccount, StateDb.account_updateAccount]
      split_ifs with ha
      · subst ha
        exact Nat.sub_le _ _
      · exact le_rfl

/-- The ways in which a transaction is processed. -/
inductive TxRun (env : ChainEnv C S) (cfg : ExecConfig) (epoch : ℕ) (tx : Transaction)
    (st : ChainState C S) : TxResult → ChainState C S → Prop
  | refused (error : String) : TxRun env cfg epoch tx st (.refused error) st
  | unpaid {error : String} {db : Ledger}
      (fee : deductFee env cfg epoch tx st.db = (.error error, db)) :
    TxRun env cfg epoch tx st (.refused error) { st with db := db }
  | failed {db : Ledger} {e : ExecutionError} {st' : ChainState C S}
      (fee : deductFee env cfg epoch tx st.db = (.ok (), db))
      (result : dispatch env cfg epoch tx { st with db := db } = (.error e, st')) :
    TxRun env cfg epoch tx st (.failed e)
      { st' with db := revertSender tx (senderSnapshot tx db) st'.db }
  | done {db : Ledger} {st' : ChainState C S}
      (fee : deductFee env cfg epoch tx st.db = (.ok (), db))
      (result : dispatch env cfg epoch tx { st with db := db } = (.ok (), st')) :
    TxRun env cfg epoch tx st .done st'

lemma txRun_of_runTx {gasUsed : ℕ} {result : TxResult}
    (h : runTx env cfg epoch gasUsed tx st = (result, st')) :
    TxRun env cfg epoch tx st result st' := by
  unfold runTx at h
  split at h
  · cases h
    exact .refused _
  · dsimp only at h
    split_ifs at h
    · cases h
      exact .refused _
    · split at h
      · cases h
        exact .unpaid ‹_›
      · split at h <;> cases h
        · exact .done ‹_› ‹_›
        · exact .failed ‹_› ‹_›

@[simp] lemma st_step (r : Progress C S) (tx : Transaction) :
    (r.step env cfg epoch tx).st = (runTx env cfg epoch r.gasUsed tx r.st).2 := by
  simp only [Progress.step]
  split <;> rfl

/-- The sender gets its balance and its nonce back if it had an account. -/
lemma account_revertSender (tx : Transaction) (db db' : Ledger) (a : AccountAddress) :
    (revertSender tx (senderSnapshot tx db) db').account a =
      if tx.sender = some a ∧ (db.accounts a).isSome ∧ (db'.accounts a).isSome then
        { db'.account a with balance := (db.account a).balance, nonce := (db.account a).nonce }
      else db'.account a := by
  unfold revertSender
  cases hsender : tx.sender with
  | none => simp
  | some addr =>
    cases hacct : db.accounts addr with
    | none =>
      simp only [senderSnapshot, hsender, hacct, bind_some, map_none]
      rw [if_neg]
      rintro ⟨haddr, hsome, -⟩
      rw [← Option.some_inj.mp haddr, hacct] at hsome
      cases hsome
    | some acct =>
      simp only [senderSnapshot, hsender, hacct, bind_some, map_some,
        Ledger.toStateDb_adjustAccount, StateDb.account_adjustAccount]
      by_cases haddr : a = addr
      · subst haddr
        simp [hacct, StateDb.account_of_some hacct]
      · simp [haddr, Ne.symm haddr]

end Engines

end Simple

end EvaporChain
