import EvaporChain.Execution.Frames

/-!
# What leaves governance alone

Proposals are changed by governance transactions and at the beginning of a block, and parameters
only there.
-/

namespace EvaporChain

open Core

variable {C S : Type}

def Ledger.polls (db : Ledger) : Dict ℕ GovernanceProposal × Dict String String :=
  (db.proposals, db.governanceParams)

lemma Ledger.apart_polls : Ledger.Apart Ledger.polls where
  updateAccount _ _ _ := rfl
  putStake _ _ := rfl
  removeStake _ _ := rfl
  putDelegation _ _ := rfl
  removeDelegation _ _ _ := rfl
  vestingSchedules _ _ := rfl
  lastRentEpoch _ _ := rfl

lemma Ledger.unswept_polls : Ledger.Unswept Ledger.polls where
  storageBytes _ _ _ := rfl
  putObject _ _ := rfl
  deleteObject _ _ := rfl
  putGhost _ _ := rfl

namespace Simple

/-! ### Transactions -/

section Handlers

variable {env : ChainEnv C S} {cfg : ExecConfig} {epoch : ℕ}

lemma polls_executeCreateObject (tx : CreateObjectTx) (db : Ledger) :
    (executeCreateObject epoch tx db).2.polls = db.polls := by
  rcases h : executeCreateObject epoch tx db with ⟨_ | _, db'⟩
  · exact (executeCreateObject_error h).part_eq Ledger.apart_polls
  · obtain ⟨-, -, rfl⟩ := executeCreateObject_ok h
    rfl

lemma polls_executeRefresh (sender : Option AccountAddress) (tx : RefreshTx) (db : Ledger) :
    (executeRefresh epoch sender tx db).2.polls = db.polls := by
  rcases h : executeRefresh epoch sender tx db with ⟨_ | _, db'⟩
  · rw [executeRefresh_error h]
  · obtain ⟨_, -, ⟨-, rfl⟩ | rfl⟩ := executeRefresh_ok h <;> rfl

/-- Only governance transactions reach the proposals. -/
lemma polls_dispatch {tx : Transaction} (h : ∀ g, tx.body ≠ .governance g)
    (st : ChainState C S) : (dispatch env cfg epoch tx st).2.db.polls = st.db.polls := by
  by_cases hreaches : reachesParts tx.body = false
  · exact (uses_dispatch hreaches st).part_eq Ledger.apart_polls
  · unfold dispatch
    cases hbody : tx.body <;>
      simp [hbody, reachesParts] at hreaches
    case createObject => exact polls_executeCreateObject _ _
    case refresh => exact polls_executeRefresh _ _ _
    case governance g => exact absurd hbody (h g)

lemma polls_executeMatured (inner : Bytes) (st : ChainState C S) :
    (executeMatured env epoch inner st).2.db.polls = st.db.polls := by
  unfold executeMatured
  split
  · rfl
  · split
    · exact (uses_executeTransfer _ _).part_eq Ledger.apart_polls
    · exact polls_executeCreateObject _ _
    · rw [db_callContract]
    · rw [db_callScript]
    · rfl

end Handlers

/-! ### Phases -/

section Phases

variable (env : ChainEnv C S)

lemma polls_processDeferred (epoch : ℕ) (st : ChainState C S) :
    (processDeferred env epoch st).db.polls = st.db.polls := by
  unfold processDeferred
  rcases dueDeferred env epoch st with ⟨due, queue⟩
  have hmatured : (executeAllMatured env epoch due.maturedTxs
      { st with deferredQueue := queue }).db.polls = st.db.polls := by
    apply foldl_keeps _ (g := fun st : ChainState C S => st.db.polls)
    intro st entry
    exact polls_executeMatured entry.2.1 st
  exact ((writes_payRefunds ..).part_eq Ledger.apart_polls).trans hmatured

/-- What happens after the transactions of a block. -/
def endBlock (input : BlockInput) (r : Progress C S) : ChainState C S :=
  afterDeferred env input.block input.scan r.totalFees (processDeferred env input.block.epoch
    (beforeDeferred env input.cfg input.block input.scan r.st))

lemma polls_endBlock (input : BlockInput) (r : Progress C S) :
    (endBlock env input r).db.polls = r.st.db.polls := by
  have hbefore : (beforeDeferred env input.cfg input.block input.scan r.st).db.polls =
      r.st.db.polls := by
    rw [db_beforeDeferred]
    exact part_processEvaporation env Ledger.unswept_polls _ _ _ _
  exact ((settles_afterDeferred env ..).db.part_eq Ledger.apart_polls).trans
    ((polls_processDeferred env _ _).trans hbefore)

/-! ### Idle ends of blocks -/

lemma processDeferred_idle (st : ChainState C S) (h : st.deferredQueue.queue = []) (epoch : ℕ) :
    (processDeferred env epoch st).db = st.db ∧
      (processDeferred env epoch st).rewardAccumulator = st.rewardAccumulator := by
  obtain ⟨db, ce, se, depth, ⟨queue, seq, sorted⟩, watchers, trie, pool, rewards, size, limit⟩ := st
  cases h
  exact ⟨rfl, rfl⟩

lemma toStateDb_afterDeferred_idle {st : ChainState C S} (hrewards : st.rewardAccumulator = none)
    (hvesting : st.db.vestingSchedules.entries = []) (block : ExecBlock) (totalFees : ℕ) :
    (afterDeferred env block ⟨[], []⟩ totalFees st).db.toStateDb = st.db.toStateDb := by
  unfold afterDeferred distributeRewards ChainState.collectRent tickVesting
  rw [hrewards]
  dsimp only [List.foldl_nil]
  split_ifs
  · rw [hvesting]
    rfl
  · rw [hvesting]
    rfl

/-- A block ends without credits if nothing is deferred and nothing is vesting. -/
lemma toStateDb_endBlock_idle {input : BlockInput} {r : Progress C S}
    (hscan : input.scan = ⟨[], []⟩) (hidle : r.st.deferredQueue.queue.isEmpty ∧
      r.st.rewardAccumulator.isNone ∧ r.st.db.vestingSchedules.entries.isEmpty) :
    (endBlock env input r).db.toStateDb = r.st.db.toStateDb := by
  simp only [List.isEmpty_iff, Option.isNone_iff_eq_none] at hidle
  obtain ⟨hqueue, hrewards, hvesting⟩ := hidle
  unfold endBlock
  rw [hscan]
  obtain ⟨hdb, haccumulator⟩ := processDeferred_idle env
    (beforeDeferred env input.cfg input.block ⟨[], []⟩ r.st) hqueue input.block.epoch
  rw [toStateDb_afterDeferred_idle env (haccumulator.trans hrewards) (hdb ▸ hvesting), hdb]
  rfl

end Phases

end Simple

end EvaporChain
