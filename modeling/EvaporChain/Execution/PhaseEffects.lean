import EvaporChain.Execution.Writes

/-!
# Effects of the phases of a block

What happens before and after the transactions of a block moves balances, but it uses no nonce,
changes no stake record and puts nothing into the queue of deferred transactions.
-/

namespace EvaporChain

open Core

variable {C S : Type} (env : ChainEnv C S)

/-! ### Quiet steps -/

def Account.SameNonce (acct acct' : Account) : Prop := acct'.nonce = acct.nonce

/-- A database with the same nonces and stake records. -/
structure Ledger.Quiet (db db' : Ledger) : Prop where
  nonce : ∀ a, (db'.account a).nonce = (db.account a).nonce
  stakes : db'.stakes = db.stakes

lemma Ledger.Writes.quiet {db db' : Ledger} (h : db.Writes Account.SameNonce false db') :
    Ledger.Quiet db db' :=
  ⟨h.account (fun _ => rfl) fun _ _ _ hxy hyz => hyz.trans hxy, h.stakes⟩

/-- A state with the same nonces, stake records and deferred transactions. -/
structure ChainState.Quiet (st st' : ChainState C S) : Prop where
  db : Ledger.Quiet st.db st'.db
  deferredQueue : st'.deferredQueue = st.deferredQueue

/-- An account that was only credited, up to the largest balance. -/
def Account.Credited (acct acct' : Account) : Prop :=
  acct'.nonce = acct.nonce ∧ min acct.balance u64Max ≤ acct'.balance

lemma Ledger.Writes.credited {db db' : Ledger} (h : db.Writes Account.Credited false db')
    (a : AccountAddress) : (db.account a).Credited (db'.account a) := by
  refine h.account (fun _ => ⟨rfl, min_le_left _ _⟩) (fun x y z hxy hyz => ?_) a
  exact ⟨hyz.1.trans hxy.1, (le_min hxy.2 (min_le_right _ _)).trans hyz.2⟩

/-- A state after writes to accounts that relate them as `A` says, with the same stakes and deferred
transactions. -/
structure ChainState.Settles (A : Account → Account → Prop) (st st' : ChainState C S) : Prop where
  db : st.db.Writes A false st'.db
  deferredQueue : st'.deferredQueue = st.deferredQueue

namespace ChainState.Settles

variable {A : Account → Account → Prop}

lemma refl (st : ChainState C S) : st.Settles A st := ⟨.refl _, rfl⟩

lemma trans {st st' st'' : ChainState C S} (h : st.Settles A st') (h' : st'.Settles A st'') :
    st.Settles A st'' :=
  ⟨h.db.trans h'.db, h'.deferredQueue.trans h.deferredQueue⟩

lemma foldl {α : Type} {step : ChainState C S → α → ChainState C S}
    (h : ∀ (st : ChainState C S) x, st.Settles A (step st x)) (xs : List α) (st : ChainState C S) :
    st.Settles A (xs.foldl step st) := by
  induction xs generalizing st with
  | nil => exact refl st
  | cons x xs ih => exact (h st x).trans (ih _)

end ChainState.Settles

/-! ### Rent and demurrage -/

namespace ChainState

variable (st : ChainState C S)

lemma settles_entomb (key : Hash) : st.Settles Account.SameNonce (st.entomb key) := by
  unfold entomb
  split_ifs <;> exact ⟨.refl _, rfl⟩

lemma settles_rentStep (addr : AccountAddress) :
    st.Settles Account.SameNonce (st.rentStep addr) := by
  unfold rentStep
  split
  · exact .refl _
  · dsimp only
    split_ifs
    · exact .refl _
    · exact ⟨.updateAccount _ _ rfl, rfl⟩
    · refine Settles.trans ?_ (settles_entomb _ addr)
      exact ⟨.updateAccount _ _ rfl, rfl⟩

lemma settles_demurrageStep (lastEpoch epoch : ℕ) (st : ChainState C S) (addr : AccountAddress) :
    st.Settles Account.SameNonce (st.demurrageStep env lastEpoch epoch addr) := by
  unfold demurrageStep
  split
  · exact .refl _
  · dsimp only
    split_ifs
    · exact .refl _
    · exact ⟨.updateAccount _ _ rfl, rfl⟩

lemma settles_collectRent (epoch : ℕ) (addresses : List AccountAddress) (st : ChainState C S) :
    st.Settles Account.SameNonce (st.collectRent env epoch addresses) := by
  simp only [collectRent]
  split_ifs
  · exact .refl _
  · have hrent := Settles.foldl settles_rentStep addresses st
    have hdemurrage := Settles.foldl (settles_demurrageStep env st.db.lastRentEpoch epoch)
      addresses (addresses.foldl rentStep st)
    exact (hrent.trans hdemurrage).trans ⟨.lastRentEpoch .., rfl⟩

/-! ### Rewards -/

lemma settles_credit (addr : AccountAddress) (amount epoch : ℕ) :
    st.Settles Account.Credited (st.credit addr amount epoch) := by
  unfold credit
  split_ifs
  · exact .refl _
  · refine ⟨.updateAccount _ _ ⟨rfl, ?_⟩, rfl⟩
    simp only [Account.credit, satAdd]
    omega

lemma settles_creditProducer (p : Producer) (amount : ℕ) :
    st.Settles Account.Credited (st.creditProducer p amount) := by
  unfold creditProducer
  split_ifs
  · exact settles_credit _ _ _ _
  · exact ⟨.refl _, rfl⟩

lemma settles_creditAll (epoch : ℕ) (shares : List (AccountAddress × ℕ)) :
    st.Settles Account.Credited (st.creditAll epoch shares) := by
  apply Settles.foldl
  intro st share
  exact settles_credit st share.1 share.2 epoch

end ChainState

namespace RewardAccumulator

variable (ra : RewardAccumulator) (p : Producer) (st : ChainState C S)

lemma settles_processBlockRewardsV2 (totalFees : ℕ) (attesters : List AccountAddress)
    (totalStaked : ℕ) :
    st.Settles Account.Credited
      (ra.processBlockRewardsV2 p totalFees attesters totalStaked st).2 := by
  have hmint (reward : ℕ) : st.Settles Account.Credited (ra.mint p reward attesters st).2 :=
    (st.settles_creditProducer p _).trans (ChainState.settles_creditAll _ _ _)
  unfold processBlockRewardsV2
  split_ifs
  · exact hmint _
  · exact ((hmint _).trans (ChainState.settles_creditProducer _ _ _)).trans
      (ChainState.settles_creditProducer _ _ _)

lemma settles_payStakers (block : ExecBlock) :
    st.Settles Account.Credited (ra.payStakers block st).2 := by
  unfold payStakers distributeStakerRewards
  dsimp only
  split_ifs
  · exact .refl _
  · exact (st.settles_creditAll _ _).trans (ChainState.settles_creditAll _ _ _)
  · exact .refl _

end RewardAccumulator

lemma settles_distributeRewards (block : ExecBlock) (totalFees : ℕ) (st : ChainState C S) :
    st.Settles Account.Credited (distributeRewards block totalFees st) := by
  unfold distributeRewards
  split
  · exact .refl _
  · rename_i ra _
    dsimp only
    have hrewards := ra.settles_processBlockRewardsV2 (producerOf block st) st totalFees
      (attestersOf st.db block.commitSigners) (satSum ((activeStakers st.db).map Prod.snd))
    generalize ra.processBlockRewardsV2 (producerOf block st) totalFees
      (attestersOf st.db block.commitSigners) (satSum ((activeStakers st.db).map Prod.snd)) st = r
      at hrewards ⊢
    have hbonus : st.Settles Account.Credited
        (r.1.applyPriorityBonus (producerOf block st) (prioritySum block)
        r.2).2 := hrewards.trans (r.2.settles_creditProducer (producerOf block st) _)
    generalize r.1.applyPriorityBonus (producerOf block st) (prioritySum block) r.2 = r'
      at hbonus ⊢
    have hstakers := hbonus.trans (r'.1.settles_payStakers r'.2 block)
    exact ⟨hstakers.db, hstakers.deferredQueue⟩

namespace Simple

/-! ### Phases of the serial executor -/

/-- The beginning of a block reaches only the proposals and the limit on gas. -/
lemma beginBlock_keeps (block : ExecBlock) (st : ChainState C S) :
    (beginBlock block st).db.toStateDb = st.db.toStateDb ∧
      (beginBlock block st).db.stakes = st.db.stakes ∧
      (beginBlock block st).db.delegations = st.db.delegations ∧
      (beginBlock block st).deferredQueue = st.deferredQueue ∧
      (beginBlock block st).refreshPool = st.refreshPool ∧
      (beginBlock block st).rewardAccumulator = st.rewardAccumulator := by
  have hparams : applyGovernanceParams st =
      { st with blockGasLimit := (applyGovernanceParams st).blockGasLimit } := by
    unfold applyGovernanceParams
    split <;> rfl
  let kept (db : Ledger) := (db.toStateDb, db.stakes, db.delegations)
  have hproposals : kept (finalizeExpiredProposals block.epoch st.db) = kept st.db := by
    refine (foldl_keeps _ (g := kept) ?_ _ _).trans (foldl_keeps _ (g := kept) ?_ _ _)
    · exact fun _ _ => rfl
    · exact fun _ _ => rfl
  obtain ⟨hdb, hstakes, hdelegations⟩ := by simpa only [kept, Prod.mk.injEq] using hproposals
  unfold beginBlock
  rw [hparams]
  exact ⟨hdb, hstakes, hdelegations, rfl, rfl, rfl⟩

lemma quiet_beginBlock (block : ExecBlock) (st : ChainState C S) :
    st.Quiet (beginBlock block st) := by
  obtain ⟨hdb, hstakes, -, hqueue, -⟩ := beginBlock_keeps block st
  exact ⟨⟨fun a => by rw [hdb], hstakes⟩, hqueue⟩

lemma unswept_quiet :
    Ledger.Unswept fun db => ((fun a => (db.account a).nonce), db.stakes) where
  storageBytes db addr bytes := by
    have hquiet : db.Quiet (db.updateAccount addr fun acct =>
        { acct with storageBytes := acct.storageBytes - bytes }) :=
      (Ledger.Writes.updateAccount db addr rfl).quiet
    exact Prod.ext (funext hquiet.nonce) hquiet.stakes
  putObject _ _ := rfl
  deleteObject _ _ := rfl
  putGhost _ _ := rfl

lemma db_beforeDeferred (cfg : ExecutorConfig) (block : ExecBlock) (scan : Scan)
    (st : ChainState C S) : (beforeDeferred env cfg block scan st).db =
      (processEvaporation env cfg.gracePeriod block.epoch scan.objectIds st).db :=
  foldl_keeps _ (g := fun st : ChainState C S => st.db) db_entomb _ _

lemma quiet_beforeDeferred (cfg : ExecutorConfig) (block : ExecBlock) (scan : Scan)
    (st : ChainState C S) : st.Quiet (beforeDeferred env cfg block scan st) := by
  have hsweep := part_processEvaporation env unswept_quiet cfg.gracePeriod block.epoch
    scan.objectIds st
  have hqueue : (beforeDeferred env cfg block scan st).deferredQueue = st.deferredQueue :=
    (ChainState.Settles.foldl ChainState.settles_entomb _ _).deferredQueue
  refine ⟨⟨fun a => ?_, ?_⟩, hqueue⟩
  · rw [db_beforeDeferred]
    exact congrFun (congrArg Prod.fst hsweep) a
  · rw [db_beforeDeferred]
    exact congrArg Prod.snd hsweep

lemma writes_vestingStep (epoch : ℕ) (db : Ledger) (sched : VestingSchedule) :
    db.Writes Account.SameNonce false (vestingStep epoch db sched) := by
  have hpay : db.Writes Account.SameNonce false (payVested epoch sched db) := by
    simp only [payVested]
    split_ifs
    · exact .refl _
    · exact .updateAccount _ _ rfl
  have hrecord (db : Ledger) :
      db.Writes Account.SameNonce false (recordVested epoch sched db) := by
    simp only [recordVested]
    split_ifs <;> exact .vestingSchedules ..
  unfold vestingStep
  split_ifs
  · exact .refl _
  · exact hpay.trans (hrecord _)

lemma writes_payRefunds (epoch : ℕ) (refunds : List (AccountAddress × ℕ)) (db : Ledger) :
    db.Writes Account.SameNonce false (payRefunds epoch refunds db) := by
  apply Ledger.Writes.foldl
  intro db refund
  exact .adjustAccount _ _ rfl

lemma settles_afterDeferred (block : ExecBlock) (scan : Scan) (totalFees : ℕ)
    (st : ChainState C S) :
    st.Settles Account.SameNonce (afterDeferred env block scan totalFees st) := by
  have hrewards := settles_distributeRewards block totalFees st
  have hrent := ChainState.settles_collectRent env block.epoch scan.accountAddresses
    (distributeRewards block totalFees st)
  have hvesting (db : Ledger) : db.Writes Account.SameNonce false (tickVesting block.epoch db) :=
    .foldl (writes_vestingStep block.epoch) _ db
  have hquiet : st.Settles Account.SameNonce (distributeRewards block totalFees st) :=
    ⟨hrewards.db.mono fun _ _ h => h.1, hrewards.deferredQueue⟩
  exact (hquiet.trans hrent).trans ⟨hvesting _, rfl⟩

end Simple

end EvaporChain
