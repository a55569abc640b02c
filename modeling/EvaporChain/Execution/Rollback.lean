import EvaporChain.Execution.ContractCalls
import EvaporChain.Execution.Frames

/-!
# What a failed transaction leaves behind

A transaction that fails after its fee was paid gets the balance and the nonce of its sender back.
What its handler wrote elsewhere before the failure stays.
-/

namespace EvaporChain

open Core Account

def Account.unstamped (acct : Account) : Account := { acct with lastTouchedEpoch := 0 }

/-- Everything but the accounts. -/
def Ledger.records (db : Ledger) :=
  (db.proposals, db.objects, db.ghosts, db.stakes, db.delegations, db.governanceParams,
    db.vestingSchedules, db.lastRentEpoch)

/-- Accounts paid what they were charged. The rest is the same, up to stamps and empty accounts. -/
structure Ledger.OnlyCharged (charged : AccountAddress → ℕ) (db db' : Ledger) : Prop where
  records : db'.records = db.records
  paid : ∀ a, charged a ≤ (db.account a).balance
  account : ∀ a, (db'.account a).unstamped =
    { db.account a with balance := (db.account a).balance - charged a }.unstamped

namespace Simple

variable {C S : Type} (env : ChainEnv C S) (cfg : ExecConfig) (epoch : ℕ)

/-- The fee, for the account that owes it. -/
def chargedTo (tx : Transaction) (a : AccountAddress) : ℕ :=
  if cfg.feeController.isSome ∧ tx.sender = some a then txFee env cfg tx else 0

/-- The fee of a transaction was paid, and nothing else happened. -/
def OnlyFee (tx : Transaction) (st st' : ChainState C S) : Prop :=
  st' = { st with db := st'.db } ∧ st.db.OnlyCharged (chargedTo env cfg tx) st'.db

/-- Rollback can undo a nonce that was used: there was an account, or the nonce was not used. -/
def NonceSafe (db : Ledger) (a : AccountAddress) (nonce : ℕ) : Prop :=
  (db.accounts a).isSome ∨ (db.account a).nonce ≠ nonce

variable {env cfg epoch}

/-! ### Fees -/

/-- Records and accounts are the same, up to stamps and empty accounts. -/
structure Kept (db db' : Ledger) : Prop where
  records : db'.records = db.records
  account : ∀ a, (db'.account a).unstamped = (db.account a).unstamped

variable {db db' : Ledger} {a addr : AccountAddress} {st' : ChainState C S} {f : Account → Account}
  {t : UserOpTx} {e : ExecutionError}

/-- What the fee does to a database. -/
lemma onlyCharged_deductFee {tx : Transaction} {db₀ : Ledger}
    (h : deductFee env cfg epoch tx db₀ = (.ok (), db)) :
    db₀.OnlyCharged (chargedTo env cfg tx) db := by
  rcases chargeFee_ok h with ⟨hfree, rfl⟩ | ⟨hfees, addr, hsender, hle, rfl⟩
  · have hzero : ∀ a, chargedTo env cfg tx a = 0 := by
      intro a
      refine if_neg ?_
      rcases hfree with hfree | hfree <;> simp [hfree]
    refine ⟨rfl, ?_, ?_⟩
    · intro a
      rw [hzero]
      exact Nat.zero_le _
    · intro a
      rw [hzero]
      rfl
  · have hcharged (a : AccountAddress) :
        chargedTo env cfg tx a = if a = addr then txFee env cfg tx else 0 := by
      unfold chargedTo
      rw [hsender]
      simp [hfees, eq_comm]
    refine ⟨rfl, ?_, ?_⟩
    · intro a
      rw [hcharged]
      split_ifs with ha
      · exact ha ▸ hle
      · exact Nat.zero_le _
    · intro a
      rw [hcharged, Ledger.toStateDb_updateAccount, StateDb.account_updateAccount]
      split_ifs with ha
      · subst ha
        simp [unstamped, debit]
      · rfl

/-- After the fee, only the fee was charged exactly if the rest was kept. -/
lemma onlyCharged_iff_kept {tx : Transaction} {db₀ : Ledger}
    (h : deductFee env cfg epoch tx db₀ = (.ok (), db)) :
    db₀.OnlyCharged (chargedTo env cfg tx) db' ↔ Kept db db' := by
  have hfee := onlyCharged_deductFee h
  constructor
  · intro hcharged
    refine ⟨hcharged.records.trans hfee.records.symm, ?_⟩
    intro a
    rw [hcharged.account a, hfee.account a]
  · intro hkept
    refine ⟨hkept.records.trans hfee.records, hfee.paid, ?_⟩
    intro a
    rw [hkept.account a, hfee.account a]

/-! ### Rollback -/

lemma records_revertSender (tx : Transaction) (snapshot : Option (ℕ × ℕ)) (db : Ledger) :
    (revertSender tx snapshot db).records = db.records := by
  unfold revertSender
  split
  · rename_i addr balance nonce _
    rcases db.adjustAccount_cases addr _ with h | h <;> rw [h]
    rfl
  · rfl

/-- What a handler left, after rollback: nothing but stamps and empty accounts. -/
structure Clean (tx : Transaction) (st st' : ChainState C S) : Prop where
  engines : st' = { st with db := st'.db }
  kept : Kept st.db (revertSender tx (senderSnapshot tx st.db) st'.db)

lemma Untouched.records (h : Untouched db db') : db'.records = db.records := by
  obtain ⟨addrs, rfl⟩ := h
  exact foldl_keeps Ledger.touchAccount (fun _ _ => rfl) addrs db

variable {tx : Transaction} {st : ChainState C S}

lemma clean_of_untouched (h : Untouched st.db db) : Clean tx st { st with db := db } := by
  refine ⟨rfl, (records_revertSender _ _ _).trans h.records, ?_⟩
  intro a
  rw [account_revertSender, h.account a]
  split_ifs <;> rfl

/-- The sender gets its balance and its nonce back if it had an account. -/
lemma clean_of_account (hengines : st' = { st with db := st'.db })
    (hrecords : st'.db.records = st.db.records)
    (hother : ∀ a, tx.sender ≠ some a → (st'.db.account a).unstamped = (st.db.account a).unstamped)
    (hsender : ∀ a, tx.sender = some a → (st.db.accounts a).isSome ∧ (st'.db.accounts a).isSome ∧
      { st'.db.account a with
        balance := (st.db.account a).balance
        nonce := (st.db.account a).nonce }.unstamped = (st.db.account a).unstamped) :
    Clean tx st st' := by
  refine ⟨hengines, (records_revertSender _ _ _).trans hrecords, ?_⟩
  intro a
  rw [account_revertSender]
  by_cases ha : tx.sender = some a
  · obtain ⟨hsome, hsome', haccount⟩ := hsender a ha
    rw [if_pos ⟨ha, hsome, hsome'⟩]
    exact haccount
  · rw [if_neg fun h => ha h.1]
    exact hother a ha

lemma clean_of_update (hsender : tx.sender = some addr) (hsome : (st.db.accounts addr).isSome)
    (hf : ∀ acct, { f acct with balance := acct.balance, nonce := acct.nonce }.unstamped =
      acct.unstamped) : Clean tx st { st with db := st.db.updateAccount addr f } := by
  refine clean_of_account rfl rfl ?_ ?_
  · intro a ha
    have hne : a ≠ addr := fun h => ha (h ▸ hsender)
    simp [StateDb.account_updateAccount_of_ne _ hne]
  · intro a ha
    obtain rfl : addr = a := Option.some_inj.mp (hsender.symm.trans ha)
    refine ⟨hsome, ?_, ?_⟩
    · simp [StateDb.accounts_updateAccount]
    · have haddress : (f (st.db.account addr)).address = addr :=
        (congrArg address (hf (st.db.account addr))).trans (StateDb.address_account _ addr)
      refine Eq.trans ?_ (hf (st.db.account addr))
      simp [unstamped, haddress]

/-- An account that is not the sender's, or is new, keeps what happened to its nonce. -/
lemma Clean.nonce_eq (h : Clean tx st st') (ha : tx.sender ≠ some a ∨ st.db.accounts a = none) :
    (st'.db.account a).nonce = (st.db.account a).nonce := by
  have hnonce := congrArg nonce (h.kept.account a)
  rw [account_revertSender, if_neg] at hnonce
  · exact hnonce
  · rintro ⟨hsender, hsome, -⟩
    rcases ha with ha | ha
    · exact ha hsender
    · simp [ha] at hsome

/-- Nothing gives a storage deposit back. -/
lemma Clean.storageDeposit_eq (h : Clean tx st st') (a : AccountAddress) :
    (st'.db.account a).storageDeposit = (st.db.account a).storageDeposit := by
  have hdeposit := congrArg storageDeposit (h.kept.account a)
  rw [account_revertSender] at hdeposit
  split_ifs at hdeposit <;> exact hdeposit

/-! ### Failures of handlers -/

lemma NonceFailure.clean_iff {n : ℕ} (h : NonceFailure f addr n st.db db)
    (hsender : tx.sender = some addr)
    (hf : ∀ acct, { f acct with balance := acct.balance, nonce := acct.nonce }.unstamped =
      acct.unstamped) (hfresh : (f (.empty addr)).nonce ≠ 0) :
    Clean tx st { st with db := db } ↔ NonceSafe st.db addr n := by
  unfold NonceSafe
  cases h with
  | wrong ne untouched => exact ⟨fun _ => .inr ne, fun _ => clean_of_untouched untouched⟩
  | used eq db_eq =>
    subst db_eq
    constructor
    · intro hclean
      by_contra hsafe
      have hmissing : st.db.accounts addr = none := by simpa [eq] using hsafe
      have hnonce := hclean.nonce_eq (.inr hmissing)
      simp only [Ledger.toStateDb_updateAccount, StateDb.account_updateAccount_self,
        StateDb.account_of_none hmissing] at hnonce
      exact hfresh hnonce
    · rintro (hsome | hne)
      · exact clean_of_update hsender hsome hf
      · exact absurd eq hne

lemma unstamped_bumpNonce (epoch : ℕ) (acct : Account) :
    { acct.bumpNonce epoch with balance := acct.balance, nonce := acct.nonce }.unstamped =
      acct.unstamped := rfl

/-- A deposit that was locked stays locked. -/
lemma not_clean_lockDeposit (bytes : ℕ) (h : (st.db.account addr).storageDeposit < u64Max) :
    ¬Clean tx st { st with db := st.db.updateAccount addr (·.lockDeposit bytes epoch) } := by
  intro hclean
  have hdeposit := hclean.storageDeposit_eq addr
  simp only [Ledger.toStateDb_updateAccount, StateDb.account_updateAccount_self,
    lockDeposit, satAdd, minStorageDeposit] at hdeposit
  omega

/-- The vote is recorded as decided, and stays so. -/
lemma not_clean_lateVote {proposal : GovernanceProposal} {proposalId : ℕ} (addr : AccountAddress)
    (hproposal : st.db.proposals.lookup proposalId = some proposal)
    (hactive : proposal.status = .active) :
    ¬Clean tx st { st with
      db := (st.db.updateAccount addr (·.bumpNonce epoch)).putProposal
        { proposal with status := decideProposalOutcome proposal } } := by
  intro hclean
  have hid := st.db.proposals_keyed _ _ hproposal
  have hproposals := congrArg Prod.fst ((records_revertSender _ _ _).symm.trans hclean.kept.records)
  have hlookup := congrArg (AList.lookup proposalId) hproposals
  simp only [Ledger.records, Ledger.putProposal, hid, Dict.lookup_insert_apply, if_true, hproposal,
    Option.some_inj] at hlookup
  have hstatus := congrArg GovernanceProposal.status hlookup
  rw [hactive] at hstatus
  revert hstatus
  simp only [decideProposalOutcome]
  split_ifs <;> simp

lemma clean_callContract_iff {engine : C} (h : st' = { st with contractEngine := engine }) :
    Clean tx st st' ↔ st'.contractEngine = st.contractEngine := by
  subst h
  constructor
  · intro hclean
    exact congrArg ChainState.contractEngine hclean.engines
  · intro hengine
    have hst : { st with contractEngine := engine } = st := by
      dsimp only at hengine
      rw [hengine]
    rw [hst]
    exact clean_of_untouched (.refl st.db)

/-! ### Failures of sponsored operations -/

section

variable {t : UserOpTx} {sponsor : Option (AccountAddress × ℕ)} {db : Ledger}

lemma records_applyUserOp : (applyUserOp epoch t sponsor db).records = db.records := by
  unfold applyUserOp
  split <;> rfl

/-- Only balances, nonces and stamps change. -/
lemma restored_applyUserOp (a : AccountAddress) (balance nonce : ℕ) :
    { (applyUserOp epoch t sponsor db).account a with
        balance := balance, nonce := nonce }.unstamped =
      { db.account a with balance := balance, nonce := nonce }.unstamped := by
  unfold applyUserOp
  split <;>
    simp only [Ledger.toStateDb_updateAccount, StateDb.account_updateAccount] <;>
    split_ifs <;> simp_all [unstamped, saturateNonce, debit]

lemma account_applyUserOp_of_ne {a : AccountAddress} (ha : a ≠ t.sender)
    (hsponsor : ∀ s, sponsor = some s → a ≠ s.1) :
    (applyUserOp epoch t sponsor db).account a = db.account a := by
  unfold applyUserOp
  split
  · rw [Ledger.toStateDb_updateAccount, StateDb.account_updateAccount_of_ne _ ha]
  · rename_i paymaster cost
    rw [Ledger.toStateDb_updateAccount,
      StateDb.account_updateAccount_of_ne _ (hsponsor (paymaster, cost) rfl),
      Ledger.toStateDb_updateAccount, StateDb.account_updateAccount_of_ne _ ha]

lemma isSome_accounts_applyUserOp :
    ((applyUserOp epoch t sponsor db).accounts t.sender).isSome := by
  have hsender :
      ((db.updateAccount t.sender (·.saturateNonce epoch)).accounts t.sender).isSome := by
    rw [Ledger.toStateDb_updateAccount, StateDb.accounts_updateAccount, if_pos rfl]
    rfl
  unfold applyUserOp
  split
  · exact hsender
  · rw [Ledger.toStateDb_updateAccount]
    exact StateDb.isSome_accounts_updateAccount _ hsender _ _

end

lemma Untouched.isSome_accounts (h : Untouched db db') (ha : (db.accounts a).isSome) :
    (db'.accounts a).isSome := by
  obtain ⟨addrs, rfl⟩ := h
  induction addrs generalizing db with
  | nil => exact ha
  | cons addr addrs ih =>
    exact ih (db.isSome_accounts_updateAccount ha addr id)

section

variable (h : executeUserOp env cfg epoch t st = (.error e, st'))

include h

/-- An operation that fails after its checks used up nonces, and perhaps changed the engine. -/
lemma executeUserOp_late (hok : (checkUserOp env cfg t st.db).1.isOk) :
    ∃ sponsor db db' engine, checkUserOp env cfg t st.db = (.ok sponsor, db) ∧
      Untouched (applyUserOp epoch t sponsor db) db' ∧
      st' = { st with db := db', contractEngine := engine } := by
  rcases executeUserOp_error h with ⟨db, hcheck, -⟩ | ⟨sponsor, db, hcheck, hlate⟩
  · rw [hcheck] at hok
    cases hok
  · rcases hlate with ⟨db', hdb', rfl⟩ | ⟨_, _, engine, -, rfl⟩
    · exact ⟨sponsor, db, db', st.contractEngine, hcheck, hdb', rfl⟩
    · exact ⟨sponsor, db, _, engine, hcheck, .refl _, rfl⟩

lemma clean_of_userOp
    (hbody : tx.body = .userOp t) (hleaves : (checkUserOp env cfg t st.db).1.isOk →
      (t.paymaster = none ∨ t.paymaster = some t.sender) ∧ (st.db.accounts t.sender).isSome ∧
        st'.contractEngine = st.contractEngine) : Clean tx st st' := by
  by_cases hok : (checkUserOp env cfg t st.db).1.isOk
  · obtain ⟨hpaymaster, hsome, hengine⟩ := hleaves hok
    obtain ⟨sponsor, db, db', engine, hcheck, hdb', rfl⟩ := executeUserOp_late h hok
    obtain ⟨-, hdb, hsponsor⟩ := checkUserOp_ok hcheck
    have hsender : tx.sender = some t.sender := by
      rcases hpaymaster with hp | hp <;> simp [Transaction.sender, hbody, hp]
    subst hengine
    refine clean_of_account rfl (hdb'.records.trans (records_applyUserOp.trans hdb.records)) ?_ ?_
    · intro a ha
      have hne : a ≠ t.sender := fun h => ha (h ▸ hsender)
      rw [hdb'.account a, account_applyUserOp_of_ne hne, hdb.account a]
      rintro s rfl
      rcases hsponsor with ⟨hnone, -⟩ | ⟨_, _, hs, hp, -⟩
      · cases hnone
      · cases hs
        rcases hpaymaster with hp' | hp'
        · cases hp.symm.trans hp'
        · cases hp.symm.trans hp'
          exact hne
    · intro a ha
      obtain rfl : t.sender = a := Option.some_inj.mp (hsender.symm.trans ha)
      refine ⟨hsome, hdb'.isSome_accounts isSome_accounts_applyUserOp, ?_⟩
      rw [hdb'.account, restored_applyUserOp, hdb.account]
  · rcases executeUserOp_error h with ⟨db, hcheck, rfl⟩ | ⟨sponsor, db, hcheck, -⟩
    · exact clean_of_untouched (checkUserOp_error hcheck)
    · rw [hcheck] at hok
      exact absurd rfl hok

lemma userOp_of_clean
    (hbody : tx.body = .userOp t) (hnonce : (st.db.account t.sender).nonce < u64Max)
    (hclean : Clean tx st st') (hok : (checkUserOp env cfg t st.db).1.isOk) :
    (t.paymaster = none ∨ t.paymaster = some t.sender) ∧ (st.db.accounts t.sender).isSome ∧
      st'.contractEngine = st.contractEngine := by
  have hengine := congrArg ChainState.contractEngine hclean.engines
  obtain ⟨sponsor, db, db', engine, hcheck, hdb', rfl⟩ := executeUserOp_late h hok
  obtain ⟨-, hdb, -⟩ := checkUserOp_ok hcheck
  -- the sender's nonce went up, so the rollback has to cover the sender
  have hused : ((db'.account t.sender).nonce ≠ (st.db.account t.sender).nonce) := by
    rw [hdb'.account, ← hdb.account]
    rw [← hdb.account] at hnonce
    exact (lt_nonce_applyUserOp rfl hnonce sponsor).ne'
  refine ⟨?_, ?_, hengine⟩
  · by_contra hother
    refine hused (hclean.nonce_eq (.inl ?_))
    intro hsender
    cases hp : t.paymaster with
    | none => exact hother (.inl hp)
    | some p =>
      refine hother (.inr ?_)
      rw [← hsender]
      simp [Transaction.sender, hbody, hp]
  · by_contra hmissing
    exact hused (hclean.nonce_eq (.inr (Option.not_isSome_iff_eq_none.mp hmissing)))

end

/-! ### Failed transactions -/

/-- No counter of an account is at its limit. -/
def Unsaturated (db : Ledger) : Prop :=
  ∀ a, (db.account a).nonce < u64Max ∧ (db.account a).storageDeposit < u64Max

/-- After a failure only the fee is gone exactly if the handler left nothing. -/
lemma onlyFee_iff_clean (hfee : deductFee env cfg epoch tx st.db = (.ok (), db)) :
    OnlyFee env cfg tx st { st' with db := revertSender tx (senderSnapshot tx db) st'.db } ↔
      Clean tx { st with db := db } st' := by
  constructor
  · rintro ⟨hengines, honly⟩
    refine ⟨?_, (onlyCharged_iff_kept hfee).mp honly⟩
    have h := congrArg (fun s : ChainState C S => { s with db := st'.db }) hengines
    exact h
  · rintro ⟨hengines, hkept⟩
    refine ⟨?_, (onlyCharged_iff_kept hfee).mpr hkept⟩
    have h := congrArg (fun s : ChainState C S =>
      { s with db := revertSender tx (senderSnapshot tx db) st'.db }) hengines
    exact h

section

open Contracts

variable {J : Type} {env : ChainEnv (Engine J) S} {templates : Templates J}
  {tx : Transaction} {st st' : ChainState (Engine J) S}

/-- When a transaction that fails leaves nothing behind; the fee was paid already. -/
def LeavesNothing (env : ChainEnv (Engine J) S) (templates : Templates J) (cfg : ExecConfig)
    (epoch : ℕ) (tx : Transaction) (st : ChainState (Engine J) S) : Prop :=
  match tx.body with
  | .deployContract t => ¬LocksDeposit env epoch t st.db
  | .deployScript t => (st.db.account t.deployer).transferableBalance epoch < minStorageDeposit
  | .callContract t => ¬StrandsCall env templates t st
  | .validatorExit t => NonceSafe st.db t.validatorAddress t.nonce
  | .undelegate t => t.amount = 0 ∨ NonceSafe st.db t.delegator t.nonce
  | .claimDelegation t => NonceSafe st.db t.delegator t.nonce
  | .upgradeContract t => NonceSafe st.db t.owner t.nonce
  | .governance t =>
    NonceSafe st.db t.sender t.nonce ∧
      ((st.db.account t.sender).nonce = t.nonce → ¬IsLateVote epoch t st.db)
  | .userOp t =>
    (checkUserOp env cfg t st.db).1.isOk →
      (t.paymaster = none ∨ t.paymaster = some t.sender) ∧ (st.db.accounts t.sender).isSome ∧
        ¬StrandsOp env templates t st
  | _ => True

/-- A failing handler leaves nothing exactly under a condition. -/
structure FailsUnder (condition : Prop) (tx : Transaction) (st st' : ChainState (Engine J) S) :
    Prop where
  clean : condition → Clean tx st st'
  dirty : Unsaturated st.db → Clean tx st st' → condition

section

variable {db : Ledger} {condition : Prop}

lemma failsUnder_of_untouched (hdb : Untouched st.db db) (hst' : st' = { st with db := db })
    (hleaves : condition) : FailsUnder condition tx st st' := by
  subst hst'
  exact ⟨fun _ => clean_of_untouched hdb, fun _ _ => hleaves⟩

/-- A handler of the ledger that fails before it writes. -/
lemma failsUnder_onLedger {f : Ledger → Handled Ledger} (h : onLedger f st = (.error e, st'))
    (hf : ∀ {db}, f st.db = (.error e, db) → Untouched st.db db)
    (hleaves : condition) : FailsUnder condition tx st st' := by
  obtain ⟨_, hdb, hst'⟩ := onLedger_eq h
  exact failsUnder_of_untouched (hf hdb) hst' hleaves

lemma failsUnder_refl (hst' : st' = st) (hleaves : condition) : FailsUnder condition tx st st' :=
  failsUnder_of_untouched (.refl st.db) hst' hleaves

lemma failsUnder_lockDeposit {addr : AccountAddress} {bytes : ℕ}
    (hst' : st' = { st with db := st.db.updateAccount addr (·.lockDeposit bytes epoch) })
    (hleaves : ¬condition) : FailsUnder condition tx st st' := by
  subst hst'
  refine ⟨fun h => absurd h hleaves, ?_⟩
  intro hsat hclean
  exact absurd hclean (not_clean_lockDeposit bytes (hsat addr).2)

lemma failsUnder_of_nonce {f : Account → Account} {addr : AccountAddress} {n : ℕ}
    (h : NonceFailure f addr n st.db db) (hst' : st' = { st with db := db })
    (hsender : tx.sender = some addr)
    (hf : ∀ acct, { f acct with balance := acct.balance, nonce := acct.nonce }.unstamped =
      acct.unstamped) (hfresh : (f (.empty addr)).nonce ≠ 0)
    (hleaves : condition ↔ NonceSafe st.db addr n) : FailsUnder condition tx st st' := by
  subst hst'
  have hiff := h.clean_iff hsender hf hfresh
  exact ⟨fun hl => hiff.mpr (hleaves.mp hl), fun _ hclean => hleaves.mpr (hiff.mp hclean)⟩

end

/-- What a handler that fails leaves behind. -/
lemma failsUnder_dispatch (hcall : env.contracts.call = Contracts.call templates)
    (h : dispatch env cfg epoch tx st = (.error e, st')) :
    FailsUnder (LeavesNothing env templates cfg epoch tx st) tx st st' := by
  generalize hcondition : LeavesNothing env templates cfg epoch tx st = condition
  have hleaves := Iff.of_eq hcondition.symm
  unfold LeavesNothing at hleaves
  have hsender : tx.sender = tx.sender := rfl
  conv_rhs at hsender => unfold Transaction.sender
  have bumped (addr : AccountAddress) : ((empty addr).bumpNonce epoch).nonce ≠ 0 := by
    simp [bumpNonce, empty]
  have saturated (addr : AccountAddress) :
      ((empty addr).saturateNonce epoch).nonce ≠ 0 := by
    simp [saturateNonce, empty, satAdd, u64Max]
  unfold dispatch at h
  cases hbody : tx.body <;> simp only [hbody, iff_true] at h hleaves hsender
  case transfer => exact failsUnder_onLedger h executeTransfer_error hleaves
  case createObject => exact failsUnder_onLedger h executeCreateObject_error hleaves
  case refresh =>
    exact failsUnder_onLedger h (fun hdb => executeRefresh_error hdb ▸ .refl _) hleaves
  case deployContract =>
    obtain ⟨db, hst', ⟨hnot, hdb⟩ | ⟨hlocks, bytes, rfl⟩⟩ := executeDeployContract_error h
    · exact failsUnder_of_untouched hdb hst' (hleaves.mpr hnot)
    · exact failsUnder_lockDeposit hst' fun hl => hleaves.mp hl hlocks
  case deployScript =>
    obtain ⟨db, hst', ⟨hlt, hdb⟩ | ⟨hle, bytes, rfl⟩⟩ := executeDeployScript_error h
    · exact failsUnder_of_untouched hdb hst' (hleaves.mpr hlt)
    · exact failsUnder_lockDeposit hst' fun hl => (hleaves.mp hl).not_ge hle
  case callContract =>
    have hfailed := stampCaller_error h
    rw [← contractEngine_executeCallContract_iff hcall hfailed] at hleaves
    rcases executeCallContract_error hfailed with rfl | ⟨_, _, -, hst'⟩
    · exact failsUnder_refl rfl (hleaves.mpr rfl)
    · have hiff : Clean tx st st' ↔ _ := clean_callContract_iff hst'
      exact ⟨fun hl => hiff.mpr (hleaves.mp hl), fun _ hc => hleaves.mpr (hiff.mp hc)⟩
  case callScript =>
    exact failsUnder_refl (executeCallScript_error (stampCaller_error h)) hleaves
  case validatorStake => exact failsUnder_onLedger h executeValidatorStake_error hleaves
  case validatorExit =>
    obtain ⟨_, hdb, hst'⟩ := onLedger_eq h
    exact failsUnder_of_nonce (executeValidatorExit_error hdb) hst' hsender
      (unstamped_bumpNonce epoch) (bumped _) hleaves
  case validatorClaimStake => exact failsUnder_onLedger h executeValidatorClaimStake_error hleaves
  case deferred => exact failsUnder_refl (executeDeferred_error h) hleaves
  case governance =>
    rename_i t
    obtain ⟨_, hdb, hst'⟩ := onLedger_eq h
    rcases executeGovernance_error hdb with ⟨hfailure, hlate⟩ | ⟨hnonce, hlate⟩
    · exact failsUnder_of_nonce hfailure hst' hsender (unstamped_bumpNonce epoch) (bumped _)
        (hleaves.trans ⟨And.left, fun hsafe => ⟨hsafe, hlate⟩⟩)
    · obtain ⟨_, _, proposal, haction, hproposal, hstatus, hend, rfl⟩ := hlate
      subst hst'
      refine ⟨?_, ?_⟩
      · intro hl
        exact absurd ⟨_, _, proposal, haction, hproposal, hstatus, hend⟩ ((hleaves.mp hl).2 hnonce)
      · intro _ hclean
        exact absurd hclean (not_clean_lateVote _ hproposal hstatus)
  case multiSig => exact failsUnder_onLedger h executeMultisig_error hleaves
  case userOp =>
    have hengine := contractEngine_executeUserOp_iff hcall h
    refine ⟨?_, ?_⟩
    · intro hl
      refine clean_of_userOp h hbody fun hok => ?_
      obtain ⟨hpaymaster, hsome, hstrands⟩ := hleaves.mp hl hok
      exact ⟨hpaymaster, hsome, (hengine hok).mpr hstrands⟩
    · intro hsat hclean
      refine hleaves.mpr fun hok => ?_
      obtain ⟨hpaymaster, hsome, hsame⟩ := userOp_of_clean h hbody (hsat _).1 hclean hok
      exact ⟨hpaymaster, hsome, (hengine hok).mp hsame⟩
  case upgradeContract =>
    obtain ⟨_, hst', hfailure⟩ := executeUpgradeContract_error h
    exact failsUnder_of_nonce hfailure hst' hsender (fun _ => rfl) (saturated _)
      hleaves
  case delegate => exact failsUnder_onLedger h executeDelegate_error hleaves
  case undelegate =>
    obtain ⟨_, hdb, hst'⟩ := onLedger_eq h
    rcases executeUndelegate_error hdb with ⟨hzero, rfl⟩ | ⟨hne, hfailure⟩
    · exact failsUnder_refl hst' (hleaves.mpr (.inl hzero))
    · exact failsUnder_of_nonce hfailure hst' hsender (unstamped_bumpNonce epoch) (bumped _)
        (hleaves.trans ⟨fun h => h.resolve_left hne, .inr⟩)
  case rotateValidatorKey =>
    exact failsUnder_onLedger h (fun hdb => executeRotateValidatorKey_error hdb ▸ .refl _) hleaves
  case claimDelegation =>
    obtain ⟨_, hdb, hst'⟩ := onLedger_eq h
    exact failsUnder_of_nonce (executeClaimDelegation_error hdb) hst' hsender
      (unstamped_bumpNonce epoch) (bumped _) hleaves
  case refund => exact failsUnder_onLedger h executeRefund_error hleaves
  case deployTemplate => exact failsUnder_refl (executeDeployTemplate_error h) hleaves
  -- blobs and shielded transactions change nothing
  all_goals exact failsUnder_refl (Prod.mk.inj h).2.symm hleaves

/-- A failed transaction costs its fee and nothing else if its kind leaves nothing behind, and
only then where no counter is at its limit. -/
theorem failed_only_fee_iff {gasUsed : ℕ} {e : ExecutionError}
    (hcall : env.contracts.call = Contracts.call templates)
    (h : runTx env cfg epoch gasUsed tx st = (.failed e, st')) :
    let paid := { st with db := (deductFee env cfg epoch tx st.db).2 }
    (LeavesNothing env templates cfg epoch tx paid → OnlyFee env cfg tx st st') ∧
      (Unsaturated paid.db → OnlyFee env cfg tx st st' →
        LeavesNothing env templates cfg epoch tx paid) := by
  have hrun := txRun_of_runTx h
  generalize hresult : TxResult.failed e = result at hrun
  cases hrun with
  | failed fee result =>
    have hfails := failsUnder_dispatch hcall result
    rw [fee, onlyFee_iff_clean fee]
    exact ⟨hfails.clean, hfails.dirty⟩
  | refused | unpaid | done => cases hresult

end

/-- One unit of fee for a unit of gas, and no signatures. -/
def meteredConfig : ExecConfig :=
  { verifySignatures := false, feeController := some ⟨1⟩, chainId := [] }

/-- Contracts that hold a number, which `mint` raises and `balance_of` reads. -/
def counterTemplates : Contracts.Templates ℕ where
  executeMethod _ state method _ _ _ _ :=
    if method = "mint" then .ok (state + 1)
    else if method = "balance_of" then .ok state
    else .error s!"unknown method: {method}"
  argument _ _ := none
  stateSize _ := 8

def counterChain : ChainEnv (Contracts.Engine ℕ) Unit :=
  chainOf
    { deploy := fun engine _ _ => .ok engine
      call := Contracts.call counterTemplates
      phaseOf := fun _ _ => none
      tick := fun engine _ => engine }
    simpleChain.scripts

/-- A contract with an energy of 3, every call of which costs 5. -/
def tiredCounter : Contracts.ContractInstance ℕ where
  template := .decayingToken
  state := 0
  rules := [⟨.onCall, .always, .costEnergy 5⟩]
  creator := addressOf 1
  energy := 3
  halfLife := 1000
  lastRefreshed := 0
  evaporated := false

def callCounter (method : String) : Transaction :=
  unsignedTx (.callContract
    { caller := addressOf 1, contractId := 7, method := method, args := "", epoch := 0 })

def counterState (balance : ℕ) : ChainState (Contracts.Engine ℕ) Unit :=
  { freshState (Ledger.empty.fund (addressOf 1) balance) with
    contractEngine := Function.update (fun _ => none) 7 (some tiredCounter) }

/-- A call that only reads costs its fee when the energy does not suffice. -/
theorem failed_only_fee_iff_balanceOf :
    ∃ st', runTx counterChain meteredConfig 0 0 (callCounter "balance_of") (counterState 500000) =
        (.failed (.contractError "insufficient funds: have 3, need 5"), st') ∧
      OnlyFee counterChain meteredConfig (callCounter "balance_of") (counterState 500000) st' := by
  have hrun : runTx counterChain meteredConfig 0 0 (callCounter "balance_of")
      (counterState 500000) = (.failed (.contractError "insufficient funds: have 3, need 5"),
        (runTx counterChain meteredConfig 0 0 (callCounter "balance_of")
          (counterState 500000)).2) := by
    rfl
  refine ⟨_, hrun, (failed_only_fee_iff rfl hrun).1 ?_⟩
  rintro ⟨-, -, -, contract, hcontract, state, -, -, -, hmethod, -, hne⟩
  have hstate : Except.ok contract.state = Except.ok state := hmethod
  exact hne (Except.ok.inj hstate).symm

/-- The deployment of a script without a text. -/
def emptyScript : Transaction :=
  unsignedTx (.deployScript
    { deployer := addressOf 1, sourceCode := "", energy := 0, halfLife := 0 })

/-- The deposit of a script that does not compile stays locked, and is paid back too. -/
theorem failed_deploy_locks_deposit :
    let (result, st') := runTx counterChain meteredConfig 0 0 emptyScript (counterState 500000)
    result = .failed (.scriptError "empty script") ∧
      (st'.db.account (addressOf 1)).balance = 350000 ∧
      (st'.db.account (addressOf 1)).storageDeposit = 1000 ∧
      ¬OnlyFee counterChain meteredConfig emptyScript (counterState 500000) st' := by
  refine ⟨rfl, by decide +kernel, by decide +kernel, ?_⟩
  rintro ⟨-, hcharged⟩
  have hdeposit := congrArg storageDeposit (hcharged.account (addressOf 1))
  revert hdeposit
  decide +kernel

end Simple

end EvaporChain
