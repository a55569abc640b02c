import EvaporChain.Execution.Frames

/-!
# Stake records over a run

What an address gets back by claiming the stake of a validator, against what it locked.
-/

namespace EvaporChain

open Core

/-- What an address would get back from the record of a validator. -/
def Ledger.liveStake (db : Ledger) (addr : AccountAddress) (validatorId : ℕ) : ℕ :=
  match db.stakes.lookup validatorId with
  | some stake => if stake.validatorAddress = addr then stake.claimable else 0
  | none => 0

/-- Between blocks the node cuts the stake of a validator that is slashed. A record also has a
field for a slash that is kept in it. -/
def Ledger.slash (db : Ledger) (validatorId cut kept : ℕ) : Ledger :=
  match db.stakes.lookup validatorId with
  | some stake => db.putStake
    { stake with
      stakedAmount := stake.stakedAmount - cut
      slashedAmount := stake.slashedAmount + kept }
  | none => db

namespace Simple

variable {C S : Type} (env : ChainEnv C S)

/-! ### Runs with slashes -/

inductive ChainEvent
  | block (input : BlockInput)
  | slash (validatorId cut kept : ℕ)

def nextEvent (st : ChainState C S) : ChainEvent → ChainState C S
  | .block input => nextState env st input
  | .slash validatorId cut kept => { st with db := st.db.slash validatorId cut kept }

variable (input : BlockInput) (addr : AccountAddress)

def balanceAfterFee (r : Progress C S) (tx : Transaction) : ℕ :=
  ((deductFee env input.cfg.toExecConfig input.block.epoch tx r.st.db).2.account addr).balance

def claimCredit (validatorId : ℕ) (r : Progress C S) (tx : Transaction) : ℕ :=
  match runTx env input.cfg.toExecConfig input.block.epoch r.gasUsed tx r.st with
  | (.done, st) =>
    match tx.body with
    | .validatorClaimStake claim =>
      if claim.validatorAddress = addr ∧ claim.validatorId = validatorId then
        (st.db.account addr).balance - balanceAfterFee env input addr r tx
      else 0
    | _ => 0
  | _ => 0

def stakeDebit (validatorId : ℕ) (r : Progress C S) (tx : Transaction) : ℕ :=
  match runTx env input.cfg.toExecConfig input.block.epoch r.gasUsed tx r.st with
  | (.done, st) =>
    match tx.body with
    | .validatorStake stake =>
      if stake.validatorAddress = addr ∧ stake.validatorId = validatorId then
        balanceAfterFee env input addr r tx - (st.db.account addr).balance
      else 0
    | _ => 0
  | _ => 0

variable (addr : AccountAddress) (validatorId : ℕ) (st : ChainState C S)

def eventClaimed : ChainEvent → ℕ
  | .block input =>
    ((transactionSteps env st input).map fun x =>
      claimCredit env input addr validatorId x.1 x.2).sum
  | .slash .. => 0

def eventLocked : ChainEvent → ℕ
  | .block input =>
    ((transactionSteps env st input).map fun x => stakeDebit env input addr validatorId x.1 x.2).sum
  | .slash .. => 0

/-- Lost to a slash by an address that has stake in the record. -/
def eventSlashed : ChainEvent → ℕ
  | .block _ => 0
  | .slash slashed cut kept =>
    st.db.liveStake addr validatorId - (st.db.slash slashed cut kept).liveStake addr validatorId

def overRun (f : ChainState C S → ChainEvent → ℕ) (st : ChainState C S)
    (events : List ChainEvent) : ℕ :=
  ((trace (nextEvent env) st events).map fun x => f x.1 x.2).sum

/-- A transaction that succeeds in adding stake to a record that is there adds to the sender's own
stake, from which nothing was slashed. -/
def addsToOwn (input : BlockInput) (validatorId : ℕ) (r : Progress C S) (tx : Transaction) : Bool :=
  match runTx env input.cfg.toExecConfig input.block.epoch r.gasUsed tx r.st, tx.body with
  | (.done, _), .validatorStake stake =>
    stake.validatorId ≠ validatorId || (r.st.db.stakes.lookup validatorId).all fun record =>
      record.validatorAddress = stake.validatorAddress && record.slashedAmount = 0
  | _, _ => true

/-- So do all transactions of a block. -/
def ownStake (validatorId : ℕ) (st : ChainState C S) : ChainEvent → Bool
  | .block input =>
    (transactionSteps env st input).all fun x => addsToOwn env input validatorId x.1 x.2
  | .slash .. => true

variable {env}

/-! ### Single transactions -/

lemma liveStake_congr {db db' : Ledger} (h : db'.stakes = db.stakes) (addr : AccountAddress)
    (validatorId : ℕ) : db'.liveStake addr validatorId = db.liveStake addr validatorId := by
  unfold Ledger.liveStake
  rw [h]

lemma liveStake_putStake (db : Ledger) (record : StakeRecord) (addr : AccountAddress)
    (validatorId : ℕ) :
    (db.putStake record).liveStake addr validatorId =
      if validatorId = record.validatorId then
        if record.validatorAddress = addr then record.claimable else 0
      else db.liveStake addr validatorId := by
  unfold Ledger.liveStake Ledger.putStake
  rw [Dict.lookup_insert_apply]
  split_ifs <;> simp_all

variable {validatorId : ℕ}

lemma liveStake_of_some {db : Ledger} {stake : StakeRecord}
    (h : db.stakes.lookup validatorId = some stake) (addr : AccountAddress) :
    db.liveStake addr validatorId =
      if stake.validatorAddress = addr then stake.claimable else 0 := by
  unfold Ledger.liveStake
  rw [h]

section

variable {epoch : ℕ} {db db' : Ledger} {addr : AccountAddress} {validatorId : ℕ}

/-- A stake transaction adds no more to a record than its sender pays. -/
lemma liveStake_validatorStake {tx : ValidatorStakeTx}
    (h : executeValidatorStake epoch tx db = (.ok (), db'))
    (hown : tx.validatorId = validatorId → ∀ record, db.stakes.lookup validatorId = some record →
      record.validatorAddress = tx.validatorAddress ∧ record.slashedAmount = 0) :
    db'.liveStake addr validatorId ≤ db.liveStake addr validatorId +
      if tx.validatorAddress = addr ∧ tx.validatorId = validatorId then
        (db.account addr).balance - (db'.account addr).balance
      else 0 := by
  obtain ⟨-, hle, rfl⟩ := executeValidatorStake_ok h
  have hbalance := hle.trans ((db.account tx.validatorAddress).transferableBalance_le epoch)
  rw [liveStake_putStake]
  by_cases hid : validatorId = tx.validatorId
  · subst hid
    by_cases haddr : tx.validatorAddress = addr
    · subst haddr
      -- the sum in the record wraps around, which can only make it smaller
      have hrecord : (stakeOf epoch tx (db.stakes.lookup tx.validatorId)).claimable ≤
          db.liveStake tx.validatorAddress tx.validatorId + tx.stakeAmount := by
        refine (Nat.sub_le _ _).trans ((Nat.mod_le _ _).trans ?_)
        cases hlookup : db.stakes.lookup tx.validatorId with
        | none => simp
        | some record =>
          obtain ⟨hsame, hslashed⟩ := hown rfl record hlookup
          rw [liveStake_of_some hlookup, if_pos hsame]
          simp [StakeRecord.claimable, hslashed]
      have hlocked : (db.account tx.validatorAddress).balance -
          ((db.updateAccount tx.validatorAddress fun acct =>
            (acct.debit tx.stakeAmount epoch).bumpNonce epoch).account
              tx.validatorAddress).balance =
          tx.stakeAmount := by
        simp only [Ledger.toStateDb_updateAccount, StateDb.account_updateAccount_self,
          Account.debit, Account.bumpNonce]
        omega
      rw [Ledger.toStateDb_putStake, hlocked, if_pos (And.intro rfl rfl)]
      exact ((if_pos rfl).trans (if_pos rfl)).trans_le hrecord
    · simp [stakeOf, haddr]
  · exact (if_neg hid).trans_le (le_self_add)

lemma liveStake_validatorExit {tx : ValidatorExitTx}
    (h : executeValidatorExit epoch tx db = (.ok (), db')) :
    db'.liveStake addr validatorId = db.liveStake addr validatorId := by
  obtain ⟨-, stake, hstake, -, -, rfl⟩ := executeValidatorExit_ok h
  rw [liveStake_putStake]
  by_cases hid : validatorId = stake.validatorId
  · rw [hid, db.stakes_keyed _ _ hstake, liveStake_of_some hstake]
    exact if_pos rfl
  · exact if_neg hid

/-- A claim credits what was in the record, and empties it. -/
lemma liveStake_validatorClaimStake {tx : ValidatorClaimStakeTx}
    (h : executeValidatorClaimStake epoch tx db = (.ok (), db')) :
    (if tx.validatorAddress = addr ∧ tx.validatorId = validatorId then
        (db'.account addr).balance - (db.account addr).balance
      else 0) + db'.liveStake addr validatorId ≤ db.liveStake addr validatorId := by
  obtain ⟨-, stake, hstake, haddr, rfl⟩ := executeValidatorClaimStake_ok h
  by_cases hid : validatorId = tx.validatorId
  · subst hid
    rw [liveStake_of_some hstake, Ledger.liveStake, Ledger.removeStake,
      Dict.lookup_erase_apply, if_pos rfl]
    split_ifs with hboth hsame hsame
    · obtain ⟨rfl, -⟩ := hboth
      simp only [Ledger.toStateDb_updateAccount, StateDb.account_updateAccount_self, Account.claim]
      omega
    · exact absurd (haddr.trans hboth.1) hsame
    · exact Nat.zero_le _
    · exact le_rfl
  · rw [if_neg fun h => hid h.2.symm, Ledger.liveStake, Ledger.removeStake, Dict.lookup_erase_apply,
      if_neg hid, zero_add]
    exact le_rfl

end

lemma claimCredit_of_not_done {input : BlockInput} {addr : AccountAddress}
    {r : Progress C S} {tx : Transaction} {result : TxResult} {st : ChainState C S}
    (hrun : runTx env input.cfg.toExecConfig input.block.epoch r.gasUsed tx r.st = (result, st))
    (h : result ≠ .done) : claimCredit env input addr validatorId r tx = 0 := by
  unfold claimCredit
  rw [hrun]
  cases result <;> first | rfl | exact absurd rfl h

/-- What a transaction takes out of a record, it credits; what it adds, it takes. -/
lemma liveStake_step (input : BlockInput) {r : Progress C S} {tx : Transaction}
    (h : addsToOwn env input validatorId r tx) (addr : AccountAddress) :
    claimCredit env input addr validatorId r tx +
        (r.step env input.cfg.toExecConfig input.block.epoch tx).st.db.liveStake addr validatorId ≤
      r.st.db.liveStake addr validatorId + stakeDebit env input addr validatorId r tx := by
  rw [st_step]
  have hfee : (deductFee env input.cfg.toExecConfig input.block.epoch tx r.st.db).2.stakes =
      r.st.db.stakes := (writes_deductFee _ _ _ _).stakes
  rcases hrun : runTx env input.cfg.toExecConfig input.block.epoch r.gasUsed tx r.st
    with ⟨result, st'⟩
  cases txRun_of_runTx hrun with
  | refused error =>
    rw [claimCredit_of_not_done hrun (by simp), zero_add]
    exact le_self_add
  | unpaid fee =>
    rw [claimCredit_of_not_done hrun (by simp), zero_add]
    rw [fee] at hfee
    exact (liveStake_congr hfee _ _).trans_le (le_self_add)
  | @failed db e st' fee result =>
    rw [claimCredit_of_not_done hrun (by simp), zero_add]
    rw [fee] at hfee
    have hstakes := (stakes_dispatch_error result).trans hfee
    refine (liveStake_congr ?_ _ _).trans_le (le_self_add)
    rw [← hstakes]
    unfold revertSender
    split <;> rfl
  | @done db st' fee result =>
    rw [fee] at hfee
    rw [← liveStake_congr hfee]
    simp only [claimCredit, stakeDebit, hrun, balanceAfterFee, fee]
    cases hbody : tx.body
    case validatorStake stake =>
      simp only [dispatch, hbody] at result
      obtain ⟨db', hdb, rfl⟩ := onLedger_eq result
      rw [zero_add]
      refine liveStake_validatorStake hdb ?_
      intro hid record hrecord
      rw [hfee] at hrecord
      simpa [addsToOwn, hrun, hbody, hid, hrecord] using h
    case validatorExit exit =>
      simp only [dispatch, hbody] at result
      obtain ⟨db', hdb, rfl⟩ := onLedger_eq result
      simp [liveStake_validatorExit hdb]
    case validatorClaimStake claim =>
      simp only [dispatch, hbody] at result
      obtain ⟨db', hdb, rfl⟩ := onLedger_eq result
      exact liveStake_validatorClaimStake hdb
    all_goals
      have hstakes : (dispatch env input.cfg.toExecConfig input.block.epoch tx
          { r.st with db := db }).2.db.stakes = db.stakes :=
        (advances_dispatch (by rw [hbody]; rfl) _).stakes
      rw [result] at hstakes
      simp [liveStake_congr hstakes]

/-! ### Blocks and runs -/

lemma liveStake_slash_le (db : Ledger) (slashed cut kept : ℕ) (addr : AccountAddress)
    (validatorId : ℕ) :
    (db.slash slashed cut kept).liveStake addr validatorId ≤ db.liveStake addr validatorId := by
  unfold Ledger.slash
  split
  · rename_i stake hstake
    rw [liveStake_putStake]
    by_cases hid : validatorId = stake.validatorId
    · rw [hid, db.stakes_keyed _ _ hstake, liveStake_of_some hstake, if_pos rfl]
      split_ifs
      · simp only [StakeRecord.claimable]
        omega
      · exact le_rfl
    · exact (if_neg hid).le
  · exact le_rfl

lemma liveStake_nextEvent (addr : AccountAddress) (st : ChainState C S)
    (event : ChainEvent) (h : ownStake env validatorId st event) :
    eventClaimed env addr validatorId st event + eventSlashed addr validatorId st event +
        (nextEvent env st event).db.liveStake addr validatorId ≤
      st.db.liveStake addr validatorId + eventLocked env addr validatorId st event := by
  cases event with
  | block input =>
    have hrun := run_accounting (Progress.step env input.cfg.toExecConfig input.block.epoch)
      (fun r => r.st.db.liveStake addr validatorId)
      (fun r tx hown => liveStake_step input hown addr)
      (.start (beginBlock input.block st)) input.block.transactions (List.all_eq_true.mp h)
    have hstart : (Progress.start (beginBlock input.block st)).st.db.liveStake addr validatorId =
        st.db.liveStake addr validatorId :=
      liveStake_congr (quiet_beginBlock input.block st).db.stakes _ _
    have hend : (nextState env st input).db.liveStake addr validatorId =
        (transactionsOf env input st).st.db.liveStake addr validatorId :=
      liveStake_congr (stakes_nextState input st) _ _
    rw [hstart] at hrun
    simp only [nextEvent, eventClaimed, eventSlashed, eventLocked, hend, add_zero]
    exact hrun
  | slash slashed cut kept =>
    have hle := liveStake_slash_le st.db slashed cut kept addr validatorId
    simp only [nextEvent, eventClaimed, eventSlashed, eventLocked]
    omega

/-- Over a run in which nobody adds stake to the record of somebody else, or to one with a slash in
it, an address gets at most back what it locked, or had in the record at the start, without what
was slashed. -/
theorem claimed_le_locked {validatorId : ℕ} {st : ChainState C S} {events : List ChainEvent}
    (h : ∀ x ∈ trace (nextEvent env) st events, ownStake env validatorId x.1 x.2)
    (addr : AccountAddress) :
    overRun env (eventClaimed env addr validatorId) st events ≤
      st.db.liveStake addr validatorId + overRun env (eventLocked env addr validatorId) st events -
        overRun env (eventSlashed addr validatorId) st events := by
  have hrun := run_accounting (nextEvent env) (fun st => st.db.liveStake addr validatorId)
    (fun st event hown => liveStake_nextEvent addr st event hown) st events h
  rw [List.sum_map_add] at hrun
  unfold overRun
  omega

/-- The first account stakes and the second tries to add to it. Then `owner` exits, and claims after
the unbonding period. -/
def stakeRun (added : ℕ) (owner : AccountAddress) (between : List ChainEvent) : List ChainEvent :=
  .block (freeBlock 1 0 [
      .validatorStake
        { validatorAddress := addressOf 1, stakeAmount := 10, validatorId := 1, nonce := 0 },
      .validatorStake
        { validatorAddress := addressOf 2, stakeAmount := added, validatorId := 1, nonce := 0 },
      .validatorExit { validatorAddress := owner, validatorId := 1, nonce := 1 }]) ::
    between ++ [.block (freeBlock 2 256 [
      .validatorClaimStake { validatorAddress := owner, validatorId := 1, nonce := 2 }])]

/-- The second account cannot pay what it tries to add. -/
def ownStakeRun : List ChainEvent := stakeRun 50 (addressOf 1) [.slash 1 3 0]

/-- The second account claims both stakes. -/
def takenStakeRun : List ChainEvent := stakeRun 5 (addressOf 2) []

def twoFunded : ChainState Unit Unit :=
  freshState ((Ledger.empty.fund (addressOf 1) 10).fund (addressOf 2) 10)

theorem claimed_le_locked_ownStakeRun :
    (∀ x ∈ trace (nextEvent simpleChain) twoFunded ownStakeRun, ownStake simpleChain 1 x.1 x.2) ∧
      overRun simpleChain
          (eventClaimed simpleChain (addressOf 1) 1) twoFunded ownStakeRun ≤
        twoFunded.db.liveStake (addressOf 1) 1 + overRun simpleChain
            (eventLocked simpleChain (addressOf 1) 1) twoFunded ownStakeRun -
          overRun simpleChain (eventSlashed (addressOf 1) 1) twoFunded
            ownStakeRun := by
  have hown : ∀ x ∈ trace (nextEvent simpleChain) twoFunded ownStakeRun,
      ownStake simpleChain 1 x.1 x.2 := by
    decide +kernel
  exact ⟨hown, claimed_le_locked hown (addressOf 1)⟩

/-- The second account locked five units and gets fifteen. -/
theorem claims_stake_of_others :
    twoFunded.db.liveStake (addressOf 2) 1 = 0 ∧ ¬overRun simpleChain
          (eventClaimed simpleChain (addressOf 2) 1) twoFunded takenStakeRun ≤
        overRun simpleChain
            (eventLocked simpleChain (addressOf 2) 1) twoFunded takenStakeRun -
          overRun simpleChain (eventSlashed (addressOf 2) 1) twoFunded
            takenStakeRun := by
  decide +kernel

end Simple

end EvaporChain
