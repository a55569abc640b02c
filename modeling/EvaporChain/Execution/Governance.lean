import EvaporChain.Execution.Polls

/-!
# The life of a proposal

A proposal is created, collects ballots while its vote is open, is decided once and, if it passed,
activated once. What the chain holds about a proposal is compared with the history of the
transactions that were carried out.
-/

namespace EvaporChain

open Core List

/-! ### Ballots -/

/-- A vote that was counted. -/
structure Ballot where
  voter : AccountAddress
  weight : ℕ
  vote : Bool
  epoch : ℕ
deriving DecidableEq

inductive GovernanceEvent
  | created (proposal : GovernanceProposal)
  | voted (proposalId : ℕ) (ballot : Ballot)
deriving DecidableEq

def ballotsOn (proposalId : ℕ) (events : List GovernanceEvent) : List Ballot :=
  events.filterMap fun
    | .created _ => none
    | .voted id ballot => if id = proposalId then some ballot else none

def weightOf (side : Bool) (ballots : List Ballot) : ℕ :=
  ((ballots.filter (·.vote = side)).map Ballot.weight).sum

def GovernanceProposal.unvoted (p : GovernanceProposal) : GovernanceProposal :=
  { p with votesFor := 0, votesAgainst := 0, status := .active, voters := [] }

namespace Simple

/-- A proposal has the votes that were cast, in time and within the bound for their weight. -/
structure Polled (events : List GovernanceEvent) (p : GovernanceProposal) : Prop where
  created : .created p.unvoted ∈ events
  weight_le : ∀ b ∈ ballotsOn p.proposalId events, b.weight ≤ maxVoteWeight
  in_time : ∀ b ∈ ballotsOn p.proposalId events, b.epoch ≤ p.endEpoch
  votesFor : p.votesFor = min (weightOf true (ballotsOn p.proposalId events)) u64Max
  votesAgainst : p.votesAgainst = min (weightOf false (ballotsOn p.proposalId events)) u64Max

/-- What is noted down about a proposal agrees with the history. -/
structure Backed (events : List GovernanceEvent) (p : GovernanceProposal) : Prop
    extends Polled events p where
  voters : p.voters = ((ballotsOn p.proposalId events).map Ballot.voter).reverse
  nodup : p.voters.Nodup
  decided : p.status = .passed ∨ p.status = .executed → decideProposalOutcome p = .passed

/-- All proposals agree with the history, and their numbers are consecutive. -/
structure Consistent (events : List GovernanceEvent) (proposals : Dict ℕ GovernanceProposal) :
    Prop where
  backed : ∀ id p, proposals.lookup id = some p → Backed events p
  ids : ∀ id, (proposals.lookup id).isSome ↔ id < proposals.entries.length
  past : ∀ id b, .voted id b ∈ events → id < proposals.entries.length

@[simp] lemma ballotsOn_append (id : ℕ) (events events' : List GovernanceEvent) :
    ballotsOn id (events ++ events') = ballotsOn id events ++ ballotsOn id events' :=
  filterMap_append

@[simp] lemma ballotsOn_created (id : ℕ) (p : GovernanceProposal) :
    ballotsOn id [.created p] = [] := rfl

lemma ballotsOn_voted_self (id : ℕ) (b : Ballot) : ballotsOn id [.voted id b] = [b] := by
  simp [ballotsOn]

lemma ballotsOn_voted_of_ne {id id' : ℕ} (h : id' ≠ id) (b : Ballot) :
    ballotsOn id [.voted id' b] = [] := by
  simp [ballotsOn, h]

lemma weightOf_concat (side : Bool) (ballots : List Ballot) (b : Ballot) :
    weightOf side (ballots ++ [b]) =
      weightOf side ballots + if b.vote = side then b.weight else 0 := by
  unfold weightOf
  split_ifs with h <;> simp [h]

lemma weightOf_true_add_false (ballots : List Ballot) :
    weightOf true ballots + weightOf false ballots = (ballots.map Ballot.weight).sum := by
  induction ballots using List.reverseRecOn with
  | nil => rfl
  | append_singleton ballots b ih =>
    rw [weightOf_concat, weightOf_concat]
    cases b.vote <;> simp <;> omega

lemma recordVote_eq (p : GovernanceProposal) (voter : AccountAddress) (balance : ℕ) (vote : Bool) :
    recordVote p voter balance vote = { p with
        voters := voter :: p.voters
        votesFor := if vote then satAdd p.votesFor (min balance maxVoteWeight) else p.votesFor
        votesAgainst :=
          if vote then p.votesAgainst else satAdd p.votesAgainst (min balance maxVoteWeight) } := by
  cases vote <;> rfl

namespace Backed

variable {events : List GovernanceEvent} {p : GovernanceProposal}

/-- Nobody has voted yet. -/
lemma unvoted (hballots : ballotsOn p.proposalId events = [])
    (hcreated : .created p.unvoted ∈ events) : Backed events p.unvoted := by
  refine ⟨⟨hcreated, ?_, ?_, ?_, ?_⟩, ?_, nodup_nil, by simp [GovernanceProposal.unvoted]⟩
  all_goals simp [GovernanceProposal.unvoted, hballots, weightOf]

variable (h : Backed events p)

include h

/-- What happens to other proposals does not matter. -/
lemma append {new : List GovernanceEvent}
    (hother : ballotsOn p.proposalId new = []) : Backed (events ++ new) p := by
  have hballots : ballotsOn p.proposalId (events ++ new) = ballotsOn p.proposalId events := by
    rw [ballotsOn_append, hother, append_nil]
  refine ⟨⟨mem_append_left _ h.created, ?_, ?_, ?_, ?_⟩, ?_, h.nodup, h.decided⟩
  all_goals rw [hballots]
  exacts [h.weight_le, h.in_time, h.votesFor, h.votesAgainst, h.voters]

/-- A proposal is decided by its votes, so its status may change with the decision. -/
lemma withStatus {status : ProposalStatus}
    (hdecided : status = .passed ∨ status = .executed → decideProposalOutcome p = .passed) :
    Backed events { p with status := status } :=
  ⟨⟨h.created, h.weight_le, h.in_time, h.votesFor, h.votesAgainst⟩, h.voters, h.nodup, hdecided⟩

/-- A ballot that is counted. -/
lemma recordVote {voter : AccountAddress} {epoch : ℕ} (balance : ℕ)
    (vote : Bool) (hactive : p.status = .active) (hopen : epoch ≤ p.endEpoch)
    (hfresh : voter ∉ p.voters) :
    Backed (events ++ [.voted p.proposalId ⟨voter, min balance maxVoteWeight, vote, epoch⟩])
      (Simple.recordVote p voter balance vote) := by
  have hballots := ballotsOn_append p.proposalId events
    [.voted p.proposalId ⟨voter, min balance maxVoteWeight, vote, epoch⟩]
  rw [ballotsOn_voted_self] at hballots
  have hfor := h.votesFor
  have hagainst := h.votesAgainst
  rw [recordVote_eq]
  refine ⟨⟨mem_append_left _ h.created, ?_, ?_, ?_, ?_⟩, ?_,
    List.nodup_cons.mpr ⟨hfresh, h.nodup⟩, fun hstatus => ?_⟩
  · rw [hballots, forall_mem_append, forall_mem_singleton]
    exact ⟨h.weight_le, min_le_right _ _⟩
  · rw [hballots, forall_mem_append, forall_mem_singleton]
    exact ⟨h.in_time, hopen⟩
  · rw [hballots, weightOf_concat]
    cases vote <;> simp [satAdd] <;> omega
  · rw [hballots, weightOf_concat]
    cases vote <;> simp [satAdd] <;> omega
  · rw [hballots, map_append, reverse_append, ← h.voters]
    rfl
  · simp [hactive] at hstatus

end Backed

namespace Consistent

variable {events : List GovernanceEvent} {proposals : Dict ℕ GovernanceProposal}

lemma empty : Consistent [] ∅ :=
  ⟨by simp, by simp, by simp⟩

variable {p : GovernanceProposal} (h : Consistent events proposals)

include h

/-- A proposal that exists may be replaced, also after events that are about this proposal only, by
one that agrees with the history. -/
lemma put {new : List GovernanceEvent} {id : ℕ} (hsome : (proposals.lookup id).isSome)
    (hother : ∀ id' q, id' ≠ id → proposals.lookup id' = some q → ballotsOn q.proposalId new = [])
    (hvoted : ∀ id' b, .voted id' b ∈ new → id' = id) (hp : Backed (events ++ new) p) :
    Consistent (events ++ new) (proposals.insert id p) := by
  have hlength := Dict.length_insert_of_isSome hsome p
  refine ⟨fun id' q hq => ?_, fun id' => ?_, fun id' b hb => ?_⟩
  · rw [Dict.lookup_insert_apply] at hq
    split_ifs at hq with hne
    · cases hq
      exact hp
    · exact (h.backed id' q hq).append (hother id' q hne hq)
  · rw [hlength, ← h.ids id', Dict.lookup_insert_apply]
    split_ifs with heq
    · rw [heq]
      exact iff_of_true rfl hsome
    · rfl
  · rw [hlength]
    rcases List.mem_append.mp hb with hb | hb
    · exact h.past id' b hb
    · rw [hvoted id' b hb]
      exact (h.ids _).mp hsome

lemma update (hsome : (proposals.lookup p.proposalId).isSome)
    (hp : Backed events p) : Consistent events (proposals.insert p.proposalId p) := by
  rw [← append_nil events] at hp ⊢
  exact h.put hsome (fun _ _ _ _ => rfl) (by simp) hp

/-- A ballot on a proposal that exists. -/
lemma vote (hkeyed : proposals.KeyedBy GovernanceProposal.proposalId) {p' : GovernanceProposal}
    {b : Ballot} (hlookup : proposals.lookup p.proposalId = some p)
    (hp' : Backed (events ++ [.voted p.proposalId b]) p') :
    Consistent (events ++ [.voted p.proposalId b]) (proposals.insert p.proposalId p') := by
  refine h.put (by rw [hlookup]; rfl) (fun id q hne hq => ?_) (by simp) hp'
  exact ballotsOn_voted_of_ne (hkeyed id q hq ▸ Ne.symm hne) b

/-- There are no ballots on a proposal that does not exist yet. -/
lemma ballotsOn_eq_nil {id : ℕ}
    (hid : proposals.entries.length ≤ id) : ballotsOn id events = [] := by
  refine List.filterMap_eq_nil_iff.mpr fun event hevent => ?_
  cases event with
  | created => rfl
  | voted id' b =>
    have hlt := h.past id' b hevent
    exact if_neg (by omega)

/-- A proposal under the next number. -/
lemma create (hid : p.proposalId = proposals.entries.length) :
    Consistent (events ++ [.created p.unvoted]) (proposals.insert p.proposalId p.unvoted) := by
  have hnone : proposals.lookup p.proposalId = none := by
    rw [← Option.not_isSome_iff_eq_none, h.ids, hid]
    exact lt_irrefl _
  have hlength := Dict.length_insert_of_none hnone p.unvoted
  have hballots : ballotsOn p.proposalId (events ++ [.created p.unvoted]) = [] := by
    rw [ballotsOn_append, ballotsOn_created, append_nil, h.ballotsOn_eq_nil hid.ge]
  refine ⟨fun id q hq => ?_, fun id => ?_, fun id b hb => ?_⟩
  · rw [Dict.lookup_insert_apply] at hq
    split_ifs at hq
    · cases hq
      exact .unvoted hballots (mem_append_right _ (.head _))
    · exact (h.backed id q hq).append (ballotsOn_created _ _)
  · rw [hlength, Dict.lookup_insert_apply]
    have hids := h.ids id
    split_ifs with hne
    · simp [hne, hid]
    · rw [hids]
      omega
  · rw [hlength]
    rcases List.mem_append.mp hb with hb | hb
    · exact (h.past id b hb).trans (lt_add_one _)
    · cases List.mem_singleton.mp hb

end Consistent

/-! ### Governance transactions -/

variable (epoch : ℕ)

def proposalOf (proposer : AccountAddress) (title paramKey paramValue : String)
    (votingEpochs : ℕ) (db : Ledger) : GovernanceProposal where
  proposalId := db.proposals.entries.length
  proposer := proposer
  title := title
  paramKey := paramKey
  paramValue := paramValue
  startEpoch := epoch
  endEpoch := (epoch + votingEpochs) % 2 ^ 64
  votesFor := 0
  votesAgainst := 0
  status := .active
  createdAt := epoch
  voters := []

/-- The ballot that a transaction casts in a database. -/
def ballotOf (tx : GovernanceTx) (vote : Bool) (db : Ledger) : Ballot :=
  ⟨tx.sender, min (db.account tx.sender).balance maxVoteWeight, vote, epoch⟩

/-- What a governance transaction does that is carried out. -/
def eventOf (tx : GovernanceTx) (db : Ledger) : GovernanceEvent :=
  match tx.action with
  | .castVote proposalId vote => .voted proposalId (ballotOf epoch tx vote db)
  | .createProposal title paramKey paramValue votingEpochs =>
    .created (proposalOf epoch tx.sender title paramKey paramValue votingEpochs db)

section Handler

variable {epoch : ℕ} {valid : String → Except String Unit} {tx : GovernanceTx} {db db' : Ledger}

lemma balance_bumped (db : Ledger) (addr : AccountAddress) :
    ((db.updateAccount addr (·.bumpNonce epoch)).account addr).balance =
      (db.account addr).balance := by
  rw [Ledger.toStateDb_updateAccount, StateDb.account_updateAccount_self]
  rfl

/-- What a governance transaction makes of the proposals if it is carried out. -/
lemma executeGovernance_done (h : executeGovernance epoch valid tx db = (.ok (), db')) :
    (∃ id vote p, tx.action = .castVote id vote ∧ db.proposals.lookup id = some p ∧
        p.status = .active ∧ epoch ≤ p.endEpoch ∧ tx.sender ∉ p.voters ∧
        db'.proposals = db.proposals.insert id
          (recordVote p tx.sender (db.account tx.sender).balance vote)) ∨
      ∃ title paramKey paramValue votingEpochs,
        tx.action = .createProposal title paramKey paramValue votingEpochs ∧
        db'.proposals = db.proposals.insert db.proposals.entries.length
          (proposalOf epoch tx.sender title paramKey paramValue votingEpochs db) := by
  simp only [executeGovernance] at h
  split_ifs at h with hnonce
  · cases h
  · split at h
    · rename_i id vote haction
      obtain ⟨p, hlookup, hactive, hopen, hfresh, rfl⟩ := castVote_ok h
      have hid : p.proposalId = id := db.proposals_keyed id p hlookup
      subst hid
      rw [balance_bumped]
      refine .inl ⟨p.proposalId, vote, p, haction, hlookup, hactive, hopen, hfresh, ?_⟩
      rw [recordVote_eq]
      rfl
    · rename_i title paramKey paramValue votingEpochs haction
      split at h <;> cases h
      exact .inr ⟨title, paramKey, paramValue, votingEpochs, haction, rfl⟩

/-- A governance transaction that is carried out is noted down. -/
lemma Consistent.executeGovernance_ok {events : List GovernanceEvent}
    (hdb : Consistent events db.proposals)
    (h : executeGovernance epoch valid tx db = (.ok (), db')) :
    Consistent (events ++ [eventOf epoch tx db]) db'.proposals := by
  rcases executeGovernance_done h with
    ⟨id, vote, p, haction, hlookup, hactive, hopen, hfresh, hdb'⟩ |
    ⟨title, paramKey, paramValue, votingEpochs, haction, hdb'⟩
  · have hid : p.proposalId = id := db.proposals_keyed id p hlookup
    subst hid
    rw [hdb', eventOf, haction]
    refine hdb.vote db.proposals_keyed hlookup ?_
    exact (hdb.backed _ p hlookup).recordVote _ vote hactive hopen hfresh
  · rw [hdb', eventOf, haction]
    exact hdb.create (p := proposalOf epoch tx.sender title paramKey paramValue votingEpochs db) rfl

/-- One that fails may at most decide a proposal. -/
lemma Consistent.executeGovernance_error {events : List GovernanceEvent} {e : ExecutionError}
    (hdb : Consistent events db.proposals)
    (h : executeGovernance epoch valid tx db = (.error e, db')) :
    Consistent events db'.proposals := by
  rcases Simple.executeGovernance_error h with ⟨hfailure, -⟩ | ⟨-, id, _, p, -, hlookup, -, -, rfl⟩
  · have hproposals : db'.proposals = db.proposals :=
      congrArg Prod.fst (hfailure.part_eq Ledger.apart_polls)
    rwa [hproposals]
  · have hid : p.proposalId = id := db.proposals_keyed id p hlookup
    subst hid
    refine hdb.update (by rw [hlookup]; rfl) ?_
    refine (hdb.backed _ p hlookup).withStatus ?_
    unfold decideProposalOutcome
    split_ifs <;> simp

end Handler

/-! ### The beginning of a block -/

section Finalize

variable (epoch : ℕ) (db : Ledger)

/-- Proposals whose vote is over. -/
def expiredProposals : List GovernanceProposal :=
  (db.proposals.entries.map (·.2)).filter fun p => p.status = .active ∧ p.endEpoch < epoch

/-- Decide them. -/
def closeExpired : Ledger :=
  (expiredProposals epoch db).foldl (fun db p =>
    db.putProposal { p with status := decideProposalOutcome p }) db

/-- Proposals that are activated next. -/
def dueProposals : List GovernanceProposal :=
  ((closeExpired epoch db).proposals.entries.map (·.2)).filter fun p =>
    p.status = .passed ∧ satAdd p.endEpoch governanceTimelockEpochs ≤ epoch

lemma proposals_closeExpired :
    (closeExpired epoch db).proposals = db.proposals.insertAll GovernanceProposal.proposalId
      (fun p => { p with status := decideProposalOutcome p }) (expiredProposals epoch db) := by
  symm
  apply foldl_hom
  intro db p
  rfl

lemma proposals_finalize :
    (finalizeExpiredProposals epoch db).proposals =
      (closeExpired epoch db).proposals.insertAll GovernanceProposal.proposalId
        ({ · with status := .executed }) (dueProposals epoch db) := by
  symm
  apply foldl_hom
  intro db p
  rfl

lemma governanceParams_finalize :
    (finalizeExpiredProposals epoch db).governanceParams =
      db.governanceParams.insertAll GovernanceProposal.paramKey GovernanceProposal.paramValue
        (dueProposals epoch db) := by
  have hclosed : (closeExpired epoch db).governanceParams = db.governanceParams := by
    apply foldl_keeps
    intro db p
    rfl
  rw [← hclosed]
  symm
  apply foldl_hom
  intro db p
  rfl

variable {epoch db} {p : GovernanceProposal} {events : List GovernanceEvent}

lemma lookup_of_mem_expired (h : p ∈ expiredProposals epoch db) :
    db.proposals.lookup p.proposalId = some p ∧ p.status = .active := by
  obtain ⟨hmem, hexpired⟩ := List.mem_filter.mp h
  exact ⟨db.proposals_keyed.lookup_of_mem hmem, (of_decide_eq_true hexpired).1⟩

lemma lookup_of_mem_due (h : p ∈ dueProposals epoch db) :
    (closeExpired epoch db).proposals.lookup p.proposalId = some p ∧ p.status = .passed ∧
      satAdd p.endEpoch governanceTimelockEpochs ≤ epoch := by
  obtain ⟨hmem, hdue⟩ := List.mem_filter.mp h
  exact ⟨(closeExpired epoch db).proposals_keyed.lookup_of_mem hmem, of_decide_eq_true hdue⟩

lemma Consistent.insertAll {proposals : Dict ℕ GovernanceProposal} (h : Consistent events proposals)
    {f : GovernanceProposal → GovernanceProposal} (hf : ∀ p, (f p).proposalId = p.proposalId)
    {ps : List GovernanceProposal}
    (hps : ∀ p ∈ ps, (proposals.lookup p.proposalId).isSome ∧ Backed events (f p)) :
    Consistent events (proposals.insertAll GovernanceProposal.proposalId f ps) := by
  induction ps generalizing proposals with
  | nil => exact h
  | cons p ps ih =>
    obtain ⟨hsome, hp⟩ := hps p (.head _)
    rw [← hf p] at hsome
    have hnext := hf p ▸ h.update hsome hp
    refine ih hnext fun q hq => ?_
    obtain ⟨hqsome, hq⟩ := hps q (.tail _ hq)
    refine ⟨?_, hq⟩
    rw [Dict.lookup_insert_apply]
    split_ifs
    · rfl
    · exact hqsome

lemma Consistent.closeExpired (h : Consistent events db.proposals) :
    Consistent events (Simple.closeExpired epoch db).proposals := by
  rw [proposals_closeExpired]
  apply h.insertAll
  · intro p
    rfl
  intro p hp
  obtain ⟨hlookup, -⟩ := lookup_of_mem_expired hp
  refine ⟨by rw [hlookup]; rfl, (h.backed _ p hlookup).withStatus ?_⟩
  unfold decideProposalOutcome
  split_ifs <;> simp

/-- The beginning of a block agrees with the history. -/
lemma Consistent.finalize (h : Consistent events db.proposals) :
    Consistent events (finalizeExpiredProposals epoch db).proposals := by
  rw [proposals_finalize]
  apply h.closeExpired.insertAll
  · intro p
    rfl
  intro p hp
  obtain ⟨hlookup, hpassed, -⟩ := lookup_of_mem_due hp
  have hp := h.closeExpired.backed _ p hlookup
  exact ⟨by rw [hlookup]; rfl, hp.withStatus fun _ => hp.decided (.inl hpassed)⟩

/-- A proposal that was activated stays as it is. -/
lemma lookup_finalize_of_executed {id : ℕ} (h : db.proposals.lookup id = some p)
    (hexecuted : p.status = .executed) :
    (finalizeExpiredProposals epoch db).proposals.lookup id = some p ∧
      ∀ q ∈ dueProposals epoch db, q.proposalId ≠ id := by
  have hclosed : (Simple.closeExpired epoch db).proposals.lookup id = some p := by
    rw [proposals_closeExpired, Dict.lookup_insertAll_of_ne, h]
    intro q hq hid
    obtain ⟨hlookup, hactive⟩ := lookup_of_mem_expired hq
    rw [hid, h] at hlookup
    cases hlookup
    rw [hexecuted] at hactive
    cases hactive
  have hne : ∀ q ∈ dueProposals epoch db, q.proposalId ≠ id := by
    intro q hq hid
    obtain ⟨hlookup, hpassed, -⟩ := lookup_of_mem_due hq
    rw [hid, hclosed] at hlookup
    cases hlookup
    rw [hexecuted] at hpassed
    cases hpassed
  refine ⟨?_, hne⟩
  rw [proposals_finalize, Dict.lookup_insertAll_of_ne hne, hclosed]

lemma nodup_due : ((dueProposals epoch db).map GovernanceProposal.proposalId).Nodup :=
  (Simple.closeExpired epoch db).proposals_keyed.nodup_keys.sublist
    (List.filter_sublist.map _)

end Finalize

/-! ### Histories -/

/-- What happens one after the other in a chain of blocks. -/
inductive Moment
  | begins (input : BlockInput)
  | executes (input : BlockInput) (tx : Transaction)
  | ends (input : BlockInput)

def moments (inputs : List BlockInput) : List Moment :=
  inputs.flatMap fun input =>
    .begins input :: (input.block.transactions.map (.executes input) ++ [.ends input])

section Timeline

variable {C S : Type} (env : ChainEnv C S)

def Progress.next (r : Progress C S) : Moment → Progress C S
  | .begins input => .start (beginBlock input.block r.st)
  | .executes input tx => r.step env input.cfg.toExecConfig input.block.epoch tx
  | .ends input => { r with st := endBlock env input r }

/-- The state after a chain of blocks is that after its moments. -/
lemma st_run_moments (r : Progress C S) (inputs : List BlockInput) :
    (run (Progress.next env) r (moments inputs)).st = run (nextState env) r.st inputs := by
  have htxs (input : BlockInput) (r : Progress C S) (txs : List Transaction) :
      run (Progress.next env) r (txs.map (.executes input)) =
        run (Progress.step env input.cfg.toExecConfig input.block.epoch) r txs := by
    rw [run, foldl_map]
    rfl
  induction inputs generalizing r with
  | nil => rfl
  | cons input inputs ih =>
    unfold moments at ih ⊢
    rw [flatMap_cons, cons_append, run_cons, append_assoc, run_append, htxs,
      singleton_append, run_cons, ih]
    rfl

/-- What a transaction does about governance, if it is a governance transaction and carried out. -/
def eventOfTx (epoch : ℕ) (charged : Ledger) (body : TxBody) : TxResult → Option GovernanceEvent
  | .done =>
    match body with
    | .governance tx => some (eventOf epoch tx charged)
    | _ => none
  | _ => none

/-- What happens in a moment about governance. The fee of a transaction is paid first. -/
def Progress.eventAt (r : Progress C S) : Moment → Option GovernanceEvent
  | .begins _ => none
  | .executes input tx =>
    eventOfTx input.block.epoch
      (deductFee env input.cfg.toExecConfig input.block.epoch tx r.st.db).2 tx.body
      (runTx env input.cfg.toExecConfig input.block.epoch r.gasUsed tx r.st).1
  | .ends _ => none

def eventsOf (steps : List (Progress C S × Moment)) : List GovernanceEvent :=
  steps.filterMap fun x => x.1.eventAt env x.2

def history (st : ChainState C S) (inputs : List BlockInput) : List GovernanceEvent :=
  eventsOf env (trace (Progress.next env) (.start st) (moments inputs))

variable {env}

lemma eventsOf_concat (steps : List (Progress C S × Moment)) (x : Progress C S × Moment) :
    eventsOf env (steps ++ [x]) = eventsOf env steps ++ (x.1.eventAt env x.2).toList := by
  unfold eventsOf
  cases h : x.1.eventAt env x.2 <;> simp [h]

section

variable {cfg : ExecConfig} {epoch : ℕ} {tx : Transaction} {st st' : ChainState C S}
  {events : List GovernanceEvent}

lemma proposals_dispatch (h : ∀ g, tx.body ≠ .governance g)
    {result : Except ExecutionError Unit}
    (hdispatch : dispatch env cfg epoch tx st = (result, st')) :
    st'.db.proposals = st.db.proposals := by
  have hpolls : (dispatch env cfg epoch tx st).2.db.polls = st.db.polls := polls_dispatch h st
  rw [hdispatch] at hpolls
  exact congrArg Prod.fst hpolls

section

variable (h : Consistent events st.db.proposals)

include h

lemma Consistent.dispatch_ok (hdispatch : dispatch env cfg epoch tx st = (.ok (), st')) :
    Consistent (events ++ (eventOfTx epoch st.db tx.body .done).toList) st'.db.proposals := by
  dsimp only [eventOfTx]
  split
  · rename_i g hbody
    unfold dispatch at hdispatch
    rw [hbody] at hdispatch
    obtain ⟨db, hdb, rfl⟩ := onLedger_eq hdispatch
    exact h.executeGovernance_ok hdb
  · rename_i hbody
    rw [proposals_dispatch hbody hdispatch]
    simpa using h

lemma Consistent.dispatch_error {e : ExecutionError}
    (hdispatch : dispatch env cfg epoch tx st = (.error e, st')) :
    Consistent events st'.db.proposals := by
  by_cases hbody : ∃ g, tx.body = .governance g
  · obtain ⟨g, hbody⟩ := hbody
    unfold dispatch at hdispatch
    rw [hbody] at hdispatch
    obtain ⟨db, hdb, rfl⟩ := onLedger_eq hdispatch
    exact h.executeGovernance_error hdb
  · rwa [proposals_dispatch (fun g hg => hbody ⟨g, hg⟩) hdispatch]

lemma Consistent.txRun {result : TxResult} (hrun : TxRun env cfg epoch tx st result st') :
    Consistent
      (events ++ (eventOfTx epoch (deductFee env cfg epoch tx st.db).2 tx.body result).toList)
      st'.db.proposals := by
  have hfee : (deductFee env cfg epoch tx st.db).2.proposals = st.db.proposals :=
    congrArg Prod.fst ((writes_deductFee _ _ tx st.db).part_eq Ledger.apart_polls)
  cases hrun with
  | refused => simpa [eventOfTx] using h
  | unpaid fee =>
    rw [fee] at hfee
    dsimp only at hfee
    simpa [eventOfTx, hfee] using h
  | @failed db e st' fee result =>
    rw [fee] at hfee
    have hrevert : (revertSender tx (senderSnapshot tx db) st'.db).proposals = st'.db.proposals :=
      congrArg Prod.fst
        ((writes_revertSender tx (senderSnapshot tx db) st'.db).part_eq Ledger.apart_polls)
    have hdb := hfee ▸ h
    have hst' := hdb.dispatch_error result
    simpa [eventOfTx, hrevert] using hst'
  | @done db st' fee result =>
    rw [fee] at hfee ⊢
    have hdb := hfee ▸ h
    exact hdb.dispatch_ok result

end

variable (r : Progress C S)

lemma st_next_executes (input : BlockInput) (tx : Transaction) :
    (r.next env (.executes input tx)).st =
      (runTx env input.cfg.toExecConfig input.block.epoch r.gasUsed tx r.st).2 := by
  rw [Progress.next, Progress.step]
  rcases runTx env input.cfg.toExecConfig input.block.epoch r.gasUsed tx r.st
    with ⟨_ | _ | _, _⟩ <;>
    rfl

lemma db_next_begins (input : BlockInput) :
    (r.next env (.begins input)).st.db = finalizeExpiredProposals input.block.epoch r.st.db := by
  have hdb : (applyGovernanceParams r.st).db = r.st.db := by
    unfold applyGovernanceParams
    split <;> rfl
  rw [← hdb]
  rfl

/-- Every moment agrees with the history. -/
lemma Consistent.next {r : Progress C S} (h : Consistent events r.st.db.proposals) (m : Moment) :
    Consistent (events ++ (r.eventAt env m).toList) (r.next env m).st.db.proposals := by
  cases m with
  | begins input =>
    rw [db_next_begins, Progress.eventAt, Option.toList_none, append_nil]
    exact h.finalize
  | executes input tx =>
    rw [st_next_executes]
    exact h.txRun (txRun_of_runTx rfl)
  | ends input =>
    have hproposals : (endBlock env input r).db.proposals = r.st.db.proposals :=
      congrArg Prod.fst (polls_endBlock env input r)
    simpa [Progress.eventAt, Progress.next, hproposals] using h

variable (env) in
lemma consistent_run (h : st.db.proposals = ∅) (ms : List Moment) :
    Consistent (eventsOf env (trace (Progress.next env) (.start st) ms))
      (run (Progress.next env) (.start st) ms).st.db.proposals := by
  refine run_induction (Progress.next env) (s := .start st)
    (P := fun (r : Progress C S) steps => Consistent (eventsOf env steps) r.st.db.proposals)
    (G := fun _ _ => True) ?_ (fun r steps m hr _ => ?_) ms fun _ _ => trivial
  · rw [Progress.start, h]
    exact .empty
  · rw [eventsOf_concat]
    exact hr.next m

/-! ### Activation -/

/-- Activated proposals stay as they are. -/
def Settled (proposals proposals' : Dict ℕ GovernanceProposal) : Prop :=
  ∀ id p, proposals.lookup id = some p → p.status = .executed → proposals'.lookup id = some p

lemma Settled.of_eq {proposals proposals' : Dict ℕ GovernanceProposal}
    (h : proposals' = proposals) : Settled proposals proposals' := by
  intro id p hlookup _
  rwa [h]

lemma Settled.insert {proposals : Dict ℕ GovernanceProposal} {id : ℕ}
    (h : ∀ p, proposals.lookup id = some p → p.status ≠ .executed) (p' : GovernanceProposal) :
    Settled proposals (proposals.insert id p') := by
  intro id' p hlookup hexecuted
  rw [Dict.lookup_insert_apply]
  split_ifs with hid
  · subst hid
    exact absurd hexecuted (h p hlookup)
  · exact hlookup

lemma settled_executeGovernance {valid : String → Except String Unit} {g : GovernanceTx}
    {db : Ledger} (h : Consistent events db.proposals) :
    Settled db.proposals (executeGovernance epoch valid g db).2.proposals := by
  rcases hexec : executeGovernance epoch valid g db with ⟨_ | _, db'⟩
  · rcases Simple.executeGovernance_error hexec with
      ⟨hfailure, -⟩ | ⟨-, id, _, p, -, hlookup, hactive, -, rfl⟩
    · exact .of_eq (congrArg Prod.fst (hfailure.part_eq Ledger.apart_polls))
    · have hid : p.proposalId = id := db.proposals_keyed id p hlookup
      subst hid
      refine .insert (fun q hq => ?_) _
      rw [hlookup] at hq
      cases hq
      rw [hactive]
      decide
  · rcases executeGovernance_done hexec with
      ⟨id, vote, p, -, hlookup, hactive, -, -, hdb'⟩ | ⟨_, _, _, _, -, hdb'⟩
    · rw [hdb']
      refine .insert (fun q hq => ?_) _
      rw [hlookup] at hq
      cases hq
      rw [hactive]
      decide
    · rw [hdb']
      refine .insert (fun q hq => ?_) _
      have hlt := (h.ids db.proposals.entries.length).mp (by rw [hq]; rfl)
      exact absurd hlt (lt_irrefl _)

lemma governanceParams_executeGovernance (valid : String → Except String Unit) (g : GovernanceTx)
    (db : Ledger) :
    (executeGovernance epoch valid g db).2.governanceParams = db.governanceParams := by
  rcases hexec : executeGovernance epoch valid g db with ⟨_ | _, db'⟩
  · rcases Simple.executeGovernance_error hexec with
      ⟨hfailure, -⟩ | ⟨-, _, _, _, -, -, -, -, rfl⟩
    · exact congrArg Prod.snd (hfailure.part_eq Ledger.apart_polls)
    · rfl
  · obtain ⟨-, _, rfl⟩ := Simple.executeGovernance_ok hexec
    rfl

/-- The governance part of a database after a transaction is what the handler of governance
transactions makes of it, if anything. -/
lemma polls_txRun {result : TxResult} (hrun : TxRun env cfg epoch tx st result st') :
    st'.db.polls = st.db.polls ∨ ∃ g db, db.polls = st.db.polls ∧
      st'.db.polls = (executeGovernance epoch env.validUtilization g db).2.polls := by
  have hfee : (deductFee env cfg epoch tx st.db).2.polls = st.db.polls :=
    (writes_deductFee _ _ tx st.db).part_eq Ledger.apart_polls
  have hdispatch (db : Ledger) (hdb : db.polls = st.db.polls) :
      let st' := (dispatch env cfg epoch tx { st with db := db }).2
      st'.db.polls = st.db.polls ∨ ∃ g db, db.polls = st.db.polls ∧
        st'.db.polls = (executeGovernance epoch env.validUtilization g db).2.polls := by
    by_cases hbody : ∃ g, tx.body = .governance g
    · obtain ⟨g, hbody⟩ := hbody
      refine .inr ⟨g, db, hdb, ?_⟩
      unfold dispatch
      rw [hbody]
      rfl
    · exact .inl ((polls_dispatch (fun g hg => hbody ⟨g, hg⟩) _).trans hdb)
  cases hrun with
  | refused => exact .inl rfl
  | unpaid fee =>
    rw [fee] at hfee
    exact .inl hfee
  | @failed db e st' fee result =>
    rw [fee] at hfee
    have hpolls := hdispatch db hfee
    rw [result] at hpolls
    rwa [(writes_revertSender ..).part_eq Ledger.apart_polls]
  | @done db st' fee result =>
    rw [fee] at hfee
    have hpolls := hdispatch db hfee
    rw [result] at hpolls
    exact hpolls

variable (env) in
lemma polls_next_executes (input : BlockInput) (tx : Transaction) :
    (r.next env (.executes input tx)).st.db.polls = r.st.db.polls ∨
      ∃ g db, db.polls = r.st.db.polls ∧ (r.next env (.executes input tx)).st.db.polls =
        (executeGovernance input.block.epoch env.validUtilization g db).2.polls := by
  rw [st_next_executes]
  exact polls_txRun (txRun_of_runTx rfl)

lemma Settled.next {r : Progress C S} (h : Consistent events r.st.db.proposals) (m : Moment) :
    Settled r.st.db.proposals (r.next env m).st.db.proposals := by
  cases m with
  | begins input =>
    rw [db_next_begins]
    exact fun id p hlookup hexecuted => (lookup_finalize_of_executed hlookup hexecuted).1
  | executes input tx =>
    rcases polls_next_executes env r input tx with hpolls | ⟨g, db, hdb, hpolls⟩
    · exact .of_eq (congrArg Prod.fst hpolls)
    · have hproposals : db.proposals = r.st.db.proposals := congrArg Prod.fst hdb
      have hproposals' : (r.next env (.executes input tx)).st.db.proposals = _ :=
        congrArg Prod.fst hpolls
      rw [hproposals', ← hproposals]
      exact settled_executeGovernance (hproposals ▸ h)
  | ends input => exact .of_eq (congrArg Prod.fst (polls_endBlock env input r))

/-- Parameters change only where a block begins. -/
lemma governanceParams_nextState (st : ChainState C S) (input : BlockInput) :
    (nextState env st input).db.governanceParams =
      (finalizeExpiredProposals input.block.epoch st.db).governanceParams := by
  have htx (r : Progress C S) (tx : Transaction) :
      (r.next env (.executes input tx)).st.db.governanceParams = r.st.db.governanceParams := by
    rcases polls_next_executes env r input tx with hpolls | ⟨g, db, hdb, hpolls⟩
    · exact congrArg Prod.snd hpolls
    · have hparams : (r.next env (.executes input tx)).st.db.governanceParams = _ :=
        congrArg Prod.snd hpolls
      refine hparams.trans ((governanceParams_executeGovernance _ g db).trans ?_)
      exact congrArg Prod.snd hdb
  have htxs := foldl_keeps (fun (r : Progress C S) tx => r.next env (.executes input tx))
    (g := fun r => r.st.db.governanceParams) htx input.block.transactions
    (.start (beginBlock input.block st))
  have hbegin : ((Progress.start st).next env (.begins input)).st.db.governanceParams = _ :=
    congrArg Ledger.governanceParams (db_next_begins (.start st) input)
  refine (congrArg Prod.snd (polls_endBlock env input _)).trans ?_
  exact htxs.trans hbegin

def activatedAt (x : Progress C S × Moment) : List ℕ :=
  match x.2 with
  | .begins input => (dueProposals input.block.epoch x.1.st.db).map GovernanceProposal.proposalId
  | _ => []

variable (env) in
def activations (st : ChainState C S) (inputs : List BlockInput) : List ℕ :=
  (trace (Progress.next env) (.start st) (moments inputs)).flatMap activatedAt

variable (env) in
/-- A proposal that is activated in a moment was not activated before, and it is afterwards. -/
lemma activatedAt_next (m : Moment) :
    (activatedAt (r, m)).Nodup ∧ ∀ id ∈ activatedAt (r, m),
      (∀ p, r.st.db.proposals.lookup id = some p → p.status ≠ .executed) ∧
        ∃ p, (r.next env m).st.db.proposals.lookup id = some p ∧ p.status = .executed := by
  cases m with
  | begins input =>
    refine ⟨nodup_due, fun id hid => ?_⟩
    obtain ⟨p, hp, rfl⟩ := List.mem_map.mp hid
    refine ⟨fun q hq hexecuted => ?_, ?_⟩
    · exact (lookup_finalize_of_executed hq hexecuted).2 p hp rfl
    · rw [db_next_begins]
      rw [proposals_finalize]
      exact ⟨_, Dict.lookup_insertAll_of_mem nodup_due hp _, rfl⟩
  | executes | ends => exact ⟨nodup_nil, by simp [activatedAt]⟩

variable (env) in
lemma nodup_activations (h : st.db.proposals = ∅) (inputs : List BlockInput) :
    (activations env st inputs).Nodup := by
  have hrun := run_induction (Progress.next env) (s := .start st)
    (P := fun (r : Progress C S) steps => Consistent (eventsOf env steps) r.st.db.proposals ∧
      (steps.flatMap activatedAt).Nodup ∧ ∀ id ∈ steps.flatMap activatedAt,
        ∃ p, r.st.db.proposals.lookup id = some p ∧ p.status = .executed)
    (G := fun _ _ => True) ?_ ?_ (moments inputs) fun _ _ => trivial
  · exact hrun.2.1
  · rw [Progress.start, h]
    exact ⟨.empty, nodup_nil, by simp⟩
  · rintro r steps m ⟨hr, hnodup, hexecuted⟩ -
    obtain ⟨hnodup', hnew⟩ := activatedAt_next env r m
    refine ⟨by rw [eventsOf_concat]; exact hr.next m, ?_, fun id hid => ?_⟩
    · rw [flatMap_append, flatMap_singleton, nodup_append]
      refine ⟨hnodup, hnodup', fun id hid id' hid' heq => ?_⟩
      obtain ⟨p, hlookup, hp⟩ := hexecuted id hid
      exact (hnew id' hid').1 p (heq ▸ hlookup) hp
    · rw [flatMap_append, flatMap_singleton, mem_append] at hid
      rcases hid with hid | hid
      · obtain ⟨p, hlookup, hp⟩ := hexecuted id hid
        exact ⟨p, Settled.next hr m id p hlookup hp, hp⟩
      · exact (hnew id hid).2

/-! ### Parameters -/

/-- A proposal for a value of a parameter that may be activated in an epoch, with the ballots that
carried it. -/
structure Carried (events : List GovernanceEvent) (epoch : ℕ) (key value : String)
    (p : GovernanceProposal) : Prop extends Polled events p where
  paramKey : p.paramKey = key
  paramValue : p.paramValue = value
  timelock : satAdd p.endEpoch governanceTimelockEpochs ≤ epoch
  voters : 3 ≤ (ballotsOn p.proposalId events).length
  distinct : ((ballotsOn p.proposalId events).map Ballot.voter).Nodup
  quorum : quorumMinTotalWeight ≤ p.votesFor + p.votesAgainst
  majority : 2 * p.votesAgainst < p.votesFor

lemma Backed.carried {p : GovernanceProposal} (h : Backed events p) (hpassed : p.status = .passed)
    (htimelock : satAdd p.endEpoch governanceTimelockEpochs ≤ epoch) :
    Carried events epoch p.paramKey p.paramValue p := by
  have houtcome := h.decided (.inl hpassed)
  unfold decideProposalOutcome at houtcome
  split_ifs at houtcome with hfails hmajority
  obtain ⟨hquorum, hvoters⟩ := not_or.mp hfails
  have hlength : p.voters.length = (ballotsOn p.proposalId events).length := by
    rw [h.voters, length_reverse, length_map]
  have hfor := h.votesFor
  refine ⟨h.toPolled, rfl, rfl, htimelock, hlength ▸ not_lt.mp hvoters, ?_,
    (not_lt.mp hquorum).trans (satAdd_le_add _ _), ?_⟩
  · rw [← nodup_reverse, ← h.voters]
    exact h.nodup
  · simp only [satMul] at hmajority
    omega

variable (env) in
/-- A parameter changes only to a value that was proposed and carried, after the timelock (or in the
last epoch there is), and no proposal is activated twice. -/
theorem parameter_changes_are_carried (st : ChainState C S) (h : st.db.proposals = ∅)
    (inputs : List BlockInput) :
    (∀ (input : BlockInput) (key : String),
      let st' := run (nextState env) st inputs
      (nextState env st' input).db.governanceParams.lookup key ≠
          st'.db.governanceParams.lookup key →
        ∃ value p, (nextState env st' input).db.governanceParams.lookup key = some value ∧
          Carried (history env st inputs) input.block.epoch key value p) ∧
      (activations env st inputs).Nodup := by
  refine ⟨?_, nodup_activations env h inputs⟩
  intro input key st' hchange
  have hst' : (run (Progress.next env) (.start st) (moments inputs)).st = st' :=
    st_run_moments env (.start st) inputs
  have hconsistent : Consistent (history env st inputs) st'.db.proposals :=
    hst' ▸ consistent_run env h (moments inputs)
  rw [governanceParams_nextState, governanceParams_finalize] at hchange ⊢
  rcases Dict.lookup_insertAll_cases st'.db.governanceParams
    (dueProposals input.block.epoch st'.db) key with hsame | ⟨p, hp, hkey, hvalue⟩
  · exact absurd hsame hchange
  · obtain ⟨hlookup, hpassed, htimelock⟩ := lookup_of_mem_due hp
    refine ⟨p.paramValue, p, hvalue, ?_⟩
    rw [← hkey]
    exact (hconsistent.closeExpired.backed _ p hlookup).carried hpassed htimelock

variable (env) in
/-- After any blocks a proposal says about its votes what was cast: every voter once and in time,
and the weight of each side. -/
theorem proposals_tally_ballots (st : ChainState C S) (h : st.db.proposals = ∅)
    (inputs : List BlockInput) :
    Consistent (history env st inputs) (run (nextState env) st inputs).db.proposals := by
  have hrun := consistent_run env h (moments inputs)
  rwa [st_run_moments] at hrun

end

end Timeline

/-- Three accounts with as much money as counts in a vote. -/
def votersState : ChainState Unit Unit :=
  freshState (((Ledger.empty.fund (addressOf 1) maxVoteWeight).fund (addressOf 2)
    maxVoteWeight).fund (addressOf 3) maxVoteWeight)

/-- They vote for a new parameter, with ten epochs to do so. -/
def pollBlock (epoch : ℕ) : BlockInput :=
  freeBlock 1 epoch
    [.governance ⟨.createProposal "load" "target_gas_utilization" "0.5" 10, addressOf 1, 0⟩,
      .governance ⟨.castVote 0 true, addressOf 1, 1⟩,
      .governance ⟨.castVote 0 true, addressOf 2, 0⟩,
      .governance ⟨.castVote 0 true, addressOf 3, 0⟩]

/-- Five epochs after the vote the parameter has its new value. -/
theorem parameter_changes_are_carried_poll :
    ∃ p, Carried (history simpleChain votersState [pollBlock 1]) 16 "target_gas_utilization" "0.5"
      p := by
  obtain ⟨value, p, hvalue, hcarried⟩ :=
    (parameter_changes_are_carried simpleChain votersState rfl [pollBlock 1]).1 (freeBlock 2 16 [])
      "target_gas_utilization" (by decide +kernel)
  cases hvalue
  exact ⟨p, hcarried⟩

theorem proposals_tally_ballots_poll : Consistent (history simpleChain votersState [pollBlock 1])
    (run (nextState simpleChain) votersState [pollBlock 1]).db.proposals :=
  proposals_tally_ballots simpleChain votersState rfl _

/-- In the last epoch the timelock is cut short: the vote ended four epochs before. -/
theorem timelock_cut_short :
    let st := run (nextState simpleChain) votersState [pollBlock (u64Max - 14)]
    let st' := nextState simpleChain st (freeBlock 2 u64Max [])
    st.db.governanceParams.lookup "target_gas_utilization" = none ∧
      st'.db.governanceParams.lookup "target_gas_utilization" = some "0.5" ∧
      ∀ p ∈ st'.db.proposals.entries.map (·.2), u64Max < p.endEpoch + governanceTimelockEpochs := by
  decide +kernel

end Simple

end EvaporChain
