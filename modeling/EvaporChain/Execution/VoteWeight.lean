import EvaporChain.Execution.Coins
import EvaporChain.Execution.Governance

/-!
# One token, one vote

The weight of a ballot is the balance of the voter at that time. Coins that are passed on after a
ballot are counted again if their new owner votes. The tally is bounded by the coins there are if
nobody votes with coins that were received from another account since the proposal was created.
-/

namespace EvaporChain

open Core List

namespace Simple

/-! ### Coins -/

def gainOf (a : AccountAddress) (before after : StateDb) : ℕ :=
  (after.account a).balance - (before.account a).balance

/-- Transactions that move coins from one account to another. A transfer from the zero address makes
new ones. -/
def movesCoins : TxBody → Bool
  | .transfer tx => tx.fromAddr ≠ Hash.zero
  | .refund _ => true
  | .userOp _ => true
  | _ => false

variable {C S : Type} (env : ChainEnv C S)

/-- What an account receives from others when deferred transactions are executed. -/
def maturedTo (input : BlockInput) (a : AccountAddress) (st : ChainState C S) : ℕ :=
  ((maturedSteps env input.block.epoch st).map fun x =>
    match env.decodeTransaction x.2.2.1 with
    | .error _ => 0
    | .ok inner =>
      if movesCoins inner.body then
        gainOf a x.1.db.toStateDb
          (executeMatured env input.block.epoch x.2.2.1 x.1).2.db.toStateDb
      else 0).sum

variable (r : Progress C S)

def Progress.movedTo (a : AccountAddress) (m : Moment) : ℕ :=
  match m with
  | .begins _ => 0
  | .executes input tx =>
    if movesCoins tx.body then
      gainOf a r.st.db.toStateDb (r.next env (.executes input tx)).st.db.toStateDb
    else 0
  | .ends input =>
    maturedTo env input a (beforeDeferred env input.cfg input.block input.scan r.st)

/-- What an account receives otherwise. -/
def Progress.creditedTo (a : AccountAddress) (m : Moment) : ℕ :=
  gainOf a r.st.db.toStateDb (r.next env m).st.db.toStateDb - r.movedTo env a m

/-- What all accounts receive from outside in some moments. -/
noncomputable def credits (ms : List Moment) : ℕ :=
  ((trace (Progress.next env) r ms).map fun x => ∑ a, x.1.creditedTo env a x.2).sum

/-- Nobody votes on a proposal with coins that were received from another account. -/
def VotesOwnCoins (proposalId : ℕ) (ms : List Moment) : Prop :=
  ∀ ms₁ m ms₂, ms = ms₁ ++ m :: ms₂ → ∀ b,
    (run (Progress.next env) r ms₁).eventAt env m = some (.voted proposalId b) →
      ((trace (Progress.next env) r ms₁).map fun x => x.1.movedTo env b.voter x.2).sum = 0

variable {env}

/-! ### Ballots and balances -/

variable {r : Progress C S}

open Progress

/-- A ballot weighs at most what the voter has. -/
lemma weight_le_balance {m : Moment} {id : ℕ} {b : Ballot}
    (h : r.eventAt env m = some (.voted id b)) : b.weight ≤ (r.st.db.account b.voter).balance := by
  cases m with
  | begins | ends => cases h
  | executes input tx =>
    rw [eventAt] at h
    unfold eventOfTx at h
    split at h
    · split at h
      · rw [eventOf] at h
        split at h
        · cases h
          exact (min_le_left _ _).trans (balance_deductFee_le _ _ _ _ _)
        · cases h
      · cases h
    · cases h

variable (env) in
/-- A balance grows by what is received. -/
lemma balance_run_le (r : Progress C S) (a : AccountAddress) (ms : List Moment) :
    ((run (next env) r ms).st.db.account a).balance ≤ (r.st.db.account a).balance +
        (((trace (next env) r ms).map fun x => x.1.movedTo env a x.2).sum +
          ((trace (next env) r ms).map fun x => x.1.creditedTo env a x.2).sum) := by
  have hstep (r : Progress C S) (m : Moment) : True → 0 + ((r.next env m).st.db.account a).balance ≤
        (r.st.db.account a).balance + (r.movedTo env a m + r.creditedTo env a m) := by
    intro _
    unfold creditedTo gainOf
    omega
  have hrun := run_accounting (next env)
    (fun r : Progress C S => (r.st.db.account a).balance) hstep r ms fun _ _ => trivial
  rw [sum_map_add] at hrun
  simpa using hrun

/-- A ballot weighs at most what the voter had in the beginning and received from outside. -/
lemma VotesOwnCoins.weight_le {id : ℕ} {ms : List Moment} (h : VotesOwnCoins env r id ms)
    {b : Ballot} (hb : b ∈ ballotsOn id (eventsOf env (trace (next env) r ms))) :
    b.weight ≤ (r.st.db.account b.voter).balance +
      ((trace (next env) r ms).map fun x => x.1.creditedTo env b.voter x.2).sum := by
  obtain ⟨event, hevent, hballot⟩ := List.mem_filterMap.mp hb
  obtain ⟨x, hx, hat⟩ := List.mem_filterMap.mp hevent
  obtain ⟨ms₁, ms₂, hms, hx₁⟩ := exists_run_of_mem_trace _ hx
  cases event with
  | created => cases hballot
  | voted id' b' =>
    dsimp only at hballot
    split_ifs at hballot with hid
    cases hballot
    subst hid
    have hmoved := h ms₁ x.2 ms₂ hms b (hx₁ ▸ hat)
    have hbalance := balance_run_le env r b.voter ms₁
    have hweight := weight_le_balance hat
    rw [hx₁] at hweight
    rw [hms, trace_append, map_append, sum_append]
    omega

/-! ### The tally -/

lemma sum_credited (r : Progress C S) (ms : List Moment) :
    (∑ a, ((trace (next env) r ms).map fun x => x.1.creditedTo env a x.2).sum) =
      credits env r ms := by
  unfold credits
  induction trace (next env) r ms with
  | nil => simp
  | cons x xs ih =>
    simp only [List.map_cons, List.sum_cons]
    rw [Finset.sum_add_distrib, ih]

/-- The weight of distinct voters is bounded by the coins there are. -/
lemma VotesOwnCoins.sum_weight_le {id : ℕ} {ms : List Moment} (h : VotesOwnCoins env r id ms)
    (hdistinct : ((ballotsOn id (eventsOf env (trace (next env) r ms))).map
      Ballot.voter).Nodup) :
    ((ballotsOn id (eventsOf env (trace (next env) r ms))).map Ballot.weight).sum ≤
      totalBalance r.st.db.toStateDb + credits env r ms := by
  let bound (a : AccountAddress) : ℕ := (r.st.db.account a).balance +
    ((trace (next env) r ms).map fun x => x.1.creditedTo env a x.2).sum
  calc ((ballotsOn id (eventsOf env (trace (next env) r ms))).map Ballot.weight).sum
      ≤ ((ballotsOn id (eventsOf env (trace (next env) r ms))).map
          fun b => bound b.voter).sum := List.sum_le_sum fun b hb => h.weight_le hb
    _ = (((ballotsOn id (eventsOf env (trace (next env) r ms))).map
          Ballot.voter).map bound).sum := by rw [List.map_map]; rfl
    _ ≤ ∑ a, bound a := by
        rw [← sum_toFinset bound hdistinct]
        exact Finset.sum_le_sum_of_subset (Finset.subset_univ _)
    _ = totalBalance r.st.db.toStateDb + credits env r ms := by
      rw [Finset.sum_add_distrib, sum_credited]
      rfl

lemma eventsOf_append (xs ys : List (Progress C S × Moment)) :
    eventsOf env (xs ++ ys) = eventsOf env xs ++ eventsOf env ys :=
  filterMap_append

/-- A new proposal has the next number. -/
lemma proposalId_of_created {m : Moment} {p : GovernanceProposal}
    (h : r.eventAt env m = some (.created p)) :
    p.proposalId = r.st.db.proposals.entries.length := by
  cases m with
  | begins | ends => cases h
  | executes input tx =>
    have hproposals : (deductFee env input.cfg.toExecConfig input.block.epoch tx
        r.st.db).2.proposals = r.st.db.proposals :=
      congrArg Prod.fst ((writes_deductFee _ _ tx r.st.db).part_eq Ledger.apart_polls)
    rw [eventAt] at h
    unfold eventOfTx at h
    split at h
    · split at h
      · rw [eventOf] at h
        split at h
        · cases h
        · cases h
          rw [← hproposals]
          rfl
      · cases h
    · cases h

variable (env) in
/-- The tally of a proposal does not exceed the coins there were when it was created and those that
came from outside later, as long as nobody votes with coins received from another account. This is
so whatever happens, in a chain of blocks in particular. -/
theorem tally_le_coins (st : ChainState C S) (h : st.db.proposals = ∅) (before : List Moment)
    (m : Moment) (later : List Moment) (p : GovernanceProposal)
    (hcreated : (run (Progress.next env) (.start st) before).eventAt env m = some (.created p))
    (hown : VotesOwnCoins env (run (Progress.next env) (.start st) (before ++ [m]))
      p.proposalId later)
    (q : GovernanceProposal)
    (hq : (run (Progress.next env) (.start st) (before ++ m :: later)).st.db.proposals.lookup
      p.proposalId = some q) :
    q.votesFor + q.votesAgainst ≤
      totalBalance (run (Progress.next env) (.start st) (before ++ [m])).st.db.toStateDb +
        credits env (run (Progress.next env) (.start st) (before ++ [m])) later := by
  have hpast := consistent_run env h before
  have hend := (consistent_run env h (before ++ m :: later)).backed _ q hq
  have hid : q.proposalId = p.proposalId :=
    (run (next env) (.start st) (before ++ m :: later)).st.db.proposals_keyed _ q hq
  have hballots : ballotsOn q.proposalId
      (eventsOf env (trace (next env) (.start st) (before ++ m :: later))) =
        ballotsOn p.proposalId (eventsOf env (trace (next env)
          (run (next env) (.start st) (before ++ [m])) later)) := by
    rw [hid, append_cons, trace_append, trace_concat, eventsOf_append, eventsOf_concat, hcreated,
      ballotsOn_append, ballotsOn_append,
      hpast.ballotsOn_eq_nil (proposalId_of_created hcreated).ge]
    rfl
  have hdistinct := List.nodup_reverse.mp (hend.voters ▸ hend.nodup)
  have hfor := hend.votesFor
  have hagainst := hend.votesAgainst
  rw [hballots] at hdistinct hfor hagainst
  have hweights := hown.sum_weight_le hdistinct
  rw [← weightOf_true_add_false] at hweights
  omega

/-- Two accounts with coins. -/
def coins (first second : ℕ) : ChainState Unit Unit :=
  freshState ((Ledger.empty.fund (addressOf 1) first).fund (addressOf 2) second)

/-- A proposal of a third account. -/
def openPoll : TxBody :=
  .governance ⟨.createProposal "load" "target_gas_utilization" "0.5" 10, addressOf 3, 0⟩

/-- A ballot for it. -/
def supports (n : UInt8) : TxBody := .governance ⟨.castVote 0 true, addressOf n, 0⟩

/-- The first account passes coins on. -/
def passOn (receiver : UInt8) (amount : ℕ) : TxBody :=
  .transfer ⟨addressOf 1, addressOf receiver, amount, 1⟩

/-- A block in which it votes, pays, and the second account votes. -/
def paidPoll (receiver : UInt8) (amount : ℕ) : BlockInput :=
  freeBlock 1 1 [openPoll, supports 1, passOn receiver amount, supports 2]

/-- What happens after the proposal was created. -/
def afterPoll (input : BlockInput) : List Moment :=
  (input.block.transactions.drop 1).map (.executes input)

/-- The state in which the proposal was just created. -/
def polled (st : ChainState Unit Unit) (input : BlockInput) : Progress Unit Unit :=
  run (Progress.next simpleChain) (.start st)
    ([.begins input] ++ [.executes input (unsignedTx openPoll)])

/-- Both vote with their own coins; those that are passed on do not vote again. -/
theorem tally_le_coins_two :
    let input := paidPoll 4 6
    ∃ q, (run (Progress.next simpleChain) (.start (coins 10 5)) ([.begins input] ++
        .executes input (unsignedTx openPoll) :: afterPoll input)).st.db.proposals.lookup 0 =
          some q ∧ q.votesFor = 15 ∧
      q.votesFor + q.votesAgainst ≤ totalBalance (polled (coins 10 5) input).st.db.toStateDb +
        credits simpleChain (polled (coins 10 5) input) (afterPoll input) := by
  intro input
  have htally : ((run (Progress.next simpleChain) (.start (coins 10 5)) ([.begins input] ++
      .executes input (unsignedTx openPoll) :: afterPoll input)).st.db.proposals.lookup 0).map
        (·.votesFor) = some 15 := by
    decide +kernel
  obtain ⟨q, hq, hfifteen⟩ := Option.map_eq_some_iff.mp htally
  refine ⟨q, hq, hfifteen, tally_le_coins simpleChain (coins 10 5) rfl [.begins input]
    (.executes input (unsignedTx openPoll)) (afterPoll input) _ rfl ?_ q hq⟩
  intro ms₁ m ms₂ hms b hb
  rcases ms₁ with _ | ⟨m₁, _ | ⟨m₂, _ | ⟨m₃, ms₁⟩⟩⟩
  · rfl
  · cases hms
    cases hb
  · cases hms
    have hvoter : b.voter = addressOf 2 := by
      cases hb
      rfl
    rw [hvoter]
    decide +kernel
  · have hlength := congrArg List.length hms
    simp [afterPoll, input, paidPoll, freeBlock] at hlength

/-! ### Coins that vote twice -/

lemma balance_updateAccount {f : Account → Account} (hf : ∀ acct, (f acct).balance = acct.balance)
    (db : Ledger) (addr a : AccountAddress) :
    ((db.updateAccount addr f).account a).balance = (db.account a).balance := by
  rw [Ledger.toStateDb_updateAccount, StateDb.account_updateAccount]
  split_ifs with ha
  · rw [ha, hf]
  · rfl

/-- Governance moves no coins. -/
lemma balance_executeGovernance (epoch : ℕ) (valid : String → Except String Unit)
    (g : GovernanceTx) (db : Ledger) (a : AccountAddress) :
    ((executeGovernance epoch valid g db).2.account a).balance = (db.account a).balance := by
  have hbump (db : Ledger) : ((db.updateAccount g.sender (·.bumpNonce epoch)).account a).balance =
      (db.account a).balance := by
    apply balance_updateAccount
    intro acct
    rfl
  rcases hexec : executeGovernance epoch valid g db with ⟨_ | _, db'⟩
  · rcases executeGovernance_error hexec with ⟨hfailure, -⟩ | ⟨-, _, _, _, -, -, -, -, rfl⟩
    · cases hfailure with
      | wrong _ untouched => rw [untouched.account]
      | used _ db_eq => rw [db_eq, hbump]
    · exact hbump db
  · obtain ⟨-, _, rfl⟩ := executeGovernance_ok hexec
    exact hbump db

lemma balance_executes_governance (r : Progress C S) (input : BlockInput) {tx : Transaction}
    {g : GovernanceTx} (hbody : tx.body = .governance g) (a : AccountAddress) :
    ((r.next env (.executes input tx)).st.db.account a).balance ≤ (r.st.db.account a).balance := by
  have hfee : ((deductFee env input.cfg.toExecConfig input.block.epoch tx
      r.st.db).2.account a).balance ≤ _ := balance_deductFee_le _ _ tx r.st.db a
  have hdispatch (db : Ledger) : ((dispatch env input.cfg.toExecConfig input.block.epoch tx
      { r.st with db := db }).2.db.account a).balance = (db.account a).balance := by
    unfold dispatch
    rw [hbody]
    exact balance_executeGovernance _ _ g db a
  rw [st_next_executes]
  rcases hrun : runTx env input.cfg.toExecConfig input.block.epoch r.gasUsed tx r.st with
    ⟨result, st'⟩
  cases txRun_of_runTx hrun with
  | refused => exact le_rfl
  | unpaid fee =>
    rw [fee] at hfee
    exact hfee
  | @failed db e st' fee result =>
    rw [fee] at hfee
    have hdb := hdispatch db
    rw [result] at hdb
    rw [account_revertSender]
    split_ifs
    · exact hfee
    · exact hdb.trans_le hfee
  | @done db st' fee result =>
    rw [fee] at hfee
    have hdb := hdispatch db
    rw [result] at hdb
    exact hdb.trans_le hfee

lemma creditedTo_eq_zero {m : Moment}
    (h : ∀ a, ((r.next env m).st.db.account a).balance ≤ (r.st.db.account a).balance) :
    ∑ a, r.creditedTo env a m = 0 := by
  refine Finset.sum_eq_zero fun a _ => ?_
  have hle := h a
  unfold creditedTo gainOf
  omega

lemma totalBalance_coins : totalBalance (coins 10 0).db.toStateDb = 10 := by
  have hbalance (a : AccountAddress) :
      ((coins 10 0).db.account a).balance = if a = addressOf 1 then 10 else 0 := by
    split_ifs with h₁
    · rw [h₁]
      decide +kernel
    by_cases h₂ : a = addressOf 2
    · rw [h₂]
      decide +kernel
    rw [coins, freshState, Ledger.fund, Ledger.fund, Ledger.toStateDb_updateAccount,
      StateDb.account_updateAccount_of_ne _ h₂, Ledger.toStateDb_updateAccount,
      StateDb.account_updateAccount_of_ne _ h₁]
    rfl
  simp [totalBalance, hbalance]

/-- Ten coins vote, are passed on and vote again: twenty votes, though there were ten coins and none
came from outside. -/
theorem coins_vote_twice :
    let input := paidPoll 2 10
    let later := afterPoll input ++ [.ends input]
    moments [input] = [.begins input] ++ .executes input (unsignedTx openPoll) :: later ∧
      ∃ q, (nextState simpleChain (coins 10 0) input).db.proposals.lookup 0 = some q ∧
        totalBalance (polled (coins 10 0) input).st.db.toStateDb +
          credits simpleChain (polled (coins 10 0) input) later <
          q.votesFor + q.votesAgainst := by
  intro input later
  have htally : ((nextState simpleChain (coins 10 0) input).db.proposals.lookup 0).map
      (fun q => q.votesFor + q.votesAgainst) = some 20 := by
    decide +kernel
  obtain ⟨q, hq, htwenty⟩ := Option.map_eq_some_iff.mp htally
  have htotal : totalBalance (polled (coins 10 0) input).st.db.toStateDb ≤ 10 := by
    refine le_of_le_of_eq ?_ totalBalance_coins
    rw [polled, run_concat]
    refine (Finset.sum_le_sum fun a _ =>
      balance_executes_governance _ input rfl a).trans (le_of_eq ?_)
    exact congrArg totalBalance (beginBlock_keeps input.block (coins 10 0)).1
  have hbefore : credits simpleChain (polled (coins 10 0) input) (later.take 3) = 0 := by
    have hvote (r : Progress Unit Unit) (n : UInt8) :
        ∑ a, r.creditedTo simpleChain a (.executes input (unsignedTx (supports n))) = 0 :=
      creditedTo_eq_zero (balance_executes_governance r input rfl)
    have hpassOn (r : Progress Unit Unit) :
        ∑ a, r.creditedTo simpleChain a (.executes input (unsignedTx (passOn 2 10))) = 0 :=
      Finset.sum_eq_zero fun a _ => Nat.sub_self _
    have hthree : later.take 3 = [.executes input (unsignedTx (supports 1)),
      .executes input (unsignedTx (passOn 2 10)), .executes input (unsignedTx (supports 2))] := rfl
    simp [hthree, credits, trace, hvote, hpassOn]
  have hend : credits simpleChain
      (run (next simpleChain) (polled (coins 10 0) input) (later.take 3))
      [.ends input] = 0 := by
    rw [credits, trace, trace, List.map_singleton, List.sum_singleton]
    apply creditedTo_eq_zero
    intro a
    have hidle : (endBlock simpleChain input
        (run (next simpleChain) (polled (coins 10 0) input) (later.take 3))).db.toStateDb = _ :=
      toStateDb_endBlock_idle _ rfl (by decide +kernel)
    exact (congrArg (fun db : StateDb => (db.account a).balance) hidle).le
  refine ⟨rfl, q, hq, ?_⟩
  have hcredits : credits simpleChain (polled (coins 10 0) input) later = 0 := by
    rw [show later = later.take 3 ++ [.ends input] from rfl, credits, trace_append, map_append,
      sum_append]
    exact congrArg₂ (· + ·) hbefore hend
  omega

end Simple

end EvaporChain
