import EvaporChain.Consensus.VoteAuthentication

/-!
# Finality tracking

The records of finalized blocks a node keeps (`finality.rs`), and the node together with them.
The engine writes the tracker and never reads it, so a tracked node runs exactly like the node
it extends.
-/

namespace EvaporChain

open Core Finset

structure FinalityRecord where
  height : ℕ
  blockHash : Hash
  stateRoot : Hash
  epoch : ℕ
  certificate : CommitCertificate
  signerCount : ℕ
  signingStake : ℕ
  totalStake : ℕ
deriving DecidableEq

/-- Which blocks a node regards as final. -/
structure FinalityTracker where
  records : Dict ℕ FinalityRecord
  latestFinalized : ℕ
  maxRecords : ℕ
  totalFinalized : ℕ
  /-- Heights at which a proposal was observed; only these can be filled in later. -/
  seenProposals : Finset ℕ
  maxSeen : ℕ
  /-- Highest height whose record was pruned. -/
  supersededFloor : ℕ

namespace FinalityTracker

def new : FinalityTracker where
  records := ∅
  latestFinalized := 0
  maxRecords := 10000
  totalFinalized := 0
  seenProposals := ∅
  maxSeen := 20000
  supersededFloor := 0

variable (t : FinalityTracker) (height : ℕ)

/-- Record that a proposal was observed at a height. When too many heights are kept the oldest
one goes, which may be the new one. -/
def observeProposal : FinalityTracker :=
  if height ∈ t.seenProposals then t
  else
    let seen := insert height t.seenProposals
    if t.maxSeen < seen.card then
      { t with seenProposals := seen.erase (seen.min' (insert_nonempty _ _)) }
    else { t with seenProposals := seen }

/-- Whether observing a height leaves the tracker as it is: the height is known, or the tracker
is full of later ones. -/
def Retains : Prop :=
  height ∈ t.seenProposals ∨ t.maxSeen ≤ t.seenProposals.card ∧ ∀ h ∈ t.seenProposals, height < h

instance (t : FinalityTracker) (height : ℕ) : Decidable (t.Retains height) :=
  inferInstanceAs (Decidable (_ ∨ _ ∧ ∀ h ∈ t.seenProposals, height < h))

lemma observeProposal_eq_self_iff :
    t.observeProposal height = t ↔ t.Retains height := by
  by_cases hmem : height ∈ t.seenProposals
  · simp [observeProposal, Retains, hmem]
  have hcard : (insert height t.seenProposals).card = t.seenProposals.card + 1 :=
    card_insert_of_notMem hmem
  have hne : insert height t.seenProposals ≠ t.seenProposals := by
    intro heq
    exact hmem (heq ▸ mem_insert_self height _)
  rw [observeProposal, if_neg hmem]
  simp only [hcard, Retains, hmem, false_or]
  split_ifs with hfull
  · -- the smallest height goes, so nothing changes exactly when that is the new one
    constructor
    · intro heq
      have herase := congrArg seenProposals heq
      have hmin : (insert height t.seenProposals).min' (insert_nonempty _ _) = height := by
        by_contra hother
        refine hmem (herase ▸ Finset.mem_erase.mpr ⟨Ne.symm hother, ?_⟩)
        exact mem_insert_self height _
      refine ⟨by omega, fun h hh => lt_of_le_of_ne ?_ ?_⟩
      · rw [← hmin]
        exact Finset.min'_le _ _ (mem_insert_of_mem hh)
      · rintro rfl
        exact hmem hh
    · rintro ⟨-, hlt⟩
      have hmin : (insert height t.seenProposals).min' (insert_nonempty _ _) = height := by
        refine le_antisymm (Finset.min'_le _ _ (mem_insert_self height _)) ?_
        refine Finset.le_min' _ _ _ fun h hh => ?_
        rcases Finset.mem_insert.mp hh with rfl | hh
        · exact le_rfl
        · exact (hlt h hh).le
      rw [hmin, erase_insert hmem]
  · refine ⟨fun heq => absurd (congrArg seenProposals heq) hne, fun h => ?_⟩
    omega

/-- Drop the oldest records while there are too many, and remember the highest height dropped. -/
def prune : ℕ → FinalityTracker → FinalityTracker
  | 0, t => t
  | fuel + 1, t =>
    if t.maxRecords < t.records.keys.length then
      match t.records.keys.min? with
      | some oldest =>
        prune fuel
          { t with
            records := t.records.erase oldest
            supersededFloor := max oldest t.supersededFloor }
      | none => t
    else t

/-- Record a newly finalized block; the flag says whether a record was made. With `isActive`
every signer must still be active. -/
def onBlockFinalizedWithActive (t : FinalityTracker) (height : ℕ) (blockHash stateRoot : Hash)
    (epoch : ℕ) (certificate : CommitCertificate) (signingStake totalStake : ℕ)
    (isActive : Option (ℕ → Bool)) : FinalityTracker × Bool :=
  if isActive.any fun active => certificate.signerIds.any (!active ·) then (t, false)
  else if (t.records.lookup height).isSome then (t, false)
  else if 0 < height ∧ height ≤ t.supersededFloor then (t, false)
  else if 0 < t.latestFinalized ∧ height < t.latestFinalized ∧ height ∉ t.seenProposals then
    (t, false)
  else if certificate.signerIds = [] then (t, false)
  else if 0 < totalStake ∧ signingStake * 3 ≤ totalStake * 2 then (t, false)
  else
    let record : FinalityRecord :=
      { height := height
        blockHash := blockHash
        stateRoot := stateRoot
        epoch := epoch
        certificate := certificate
        signerCount := certificate.signerIds.length
        signingStake := signingStake
        totalStake := totalStake }
    let records := t.records.insert height record
    (prune records.keys.length
      { t with
        records := records
        latestFinalized := max height t.latestFinalized
        totalFinalized := t.totalFinalized + 1 }, true)

def onBlockFinalized (t : FinalityTracker) (height : ℕ) (blockHash stateRoot : Hash) (epoch : ℕ)
    (certificate : CommitCertificate) (signingStake totalStake : ℕ) : FinalityTracker × Bool :=
  t.onBlockFinalizedWithActive height blockHash stateRoot epoch certificate signingStake totalStake
    none

end FinalityTracker

structure TrackedConsensus extends TendermintConsensus where
  finalityTracker : FinalityTracker

namespace TrackedConsensus

variable (env : Env) (c : TrackedConsensus)

/-- Whether the node makes a proposal in a tick. -/
def proposes (input : TickInput) : Bool :=
  let node := { c.toTendermintConsensus with
    validatorSet := c.validatorSet.refreshDelegatedStakes input.delegations }
  c.roundState.phase == .propose && !c.draining && node.amIProposer env &&
    c.roundState.proposedBlock.isNone

/-- Whether a message is a proposal of the expected proposer that passes the slot filters. -/
def expectsProposal : ConsensusMessage → Bool
  | .proposal height round _ proposerId _ =>
    height == c.height && decide (c.roundState.round ≤ round) &&
      (c.proposerForRound env height round).map (·.id) == some proposerId
  | _ => false

/-- The height of a proposal is observed as soon as its proposer is the expected one. -/
def onMessage (input : CallInput) (msg : ConsensusMessage) : TrackedConsensus where
  toTendermintConsensus := (c.toTendermintConsensus.onMessage env input msg).node
  finalityTracker :=
    if c.expectsProposal env msg then c.finalityTracker.observeProposal msg.height
    else c.finalityTracker

def tick (input : TickInput) : TrackedConsensus where
  toTendermintConsensus := (c.toTendermintConsensus.tick env input).node
  finalityTracker :=
    if c.proposes env input then c.finalityTracker.observeProposal c.height else c.finalityTracker

/-- Stake of a certificate's listed signers in a validator set (`sum` on `u64` wraps). -/
def signingStake (vs : ValidatorSet) (cert : CommitCertificate) : ℕ :=
  ((cert.signerIds.filterMap vs.get).map (·.effectiveStake)).sum % 2 ^ 64

/-- A committed block is recorded as final when it carries a certificate. -/
def onBlockCommitted (input : CommitInput) : TrackedConsensus where
  toTendermintConsensus := c.toTendermintConsensus.onBlockCommitted env input
  finalityTracker :=
    match input.block.commitCertificate with
    | none => c.finalityTracker
    | some cert =>
      (c.finalityTracker.onBlockFinalized input.block.number (blockHash env input.block)
        input.stateRoot input.block.epoch cert (signingStake input.validatorSet cert)
        input.validatorSet.totalStake).1

/-- One call into the engine as a transition. -/
def step : Event → TrackedConsensus
  | .tick input => c.tick env input
  | .message input msg => c.onMessage env input msg
  | .committed input => c.onBlockCommitted env input

/-- Tracking does not influence the node. -/
@[simp] lemma toTendermintConsensus_step (e : Event) :
    (c.step env e).toTendermintConsensus = c.toTendermintConsensus.step env e := by
  cases e <;> rfl

end TrackedConsensus

end EvaporChain
