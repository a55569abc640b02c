import EvaporChain.Consensus.Certificate

/-!
# Rounds: votes, quorums, timeouts and round changes

The helpers of `tendermint.rs` that `tick` and `on_message` share.
-/

namespace EvaporChain

open Core

/-- Result of a call into the engine. `equivocationSlashes` records the validators on which
`sanovSlashEquivocation` was called. -/
structure Outcome where
  node : TendermintConsensus
  actions : List ConsensusAction
  equivocationSlashes : List ℕ

namespace ValidatorSet

variable (vs : ValidatorSet) (votes : Dict ℕ (Option Hash))

/-- Stake behind one value in a table of votes (`+=` on `u64` wraps). -/
def hashStake (hash : Option Hash) : ℕ :=
  ((votes.entries.filter (·.2 == hash)).map fun vote => vs.votingStake vote.1).sum % 2 ^ 64

/-- The value that has reached the quorum threshold, if any. -/
def checkQuorum : Option (Option Hash) :=
  (votes.entries.map (·.2)).find? fun hash =>
    decide (vs.stakeQuorumThreshold ≤ vs.hashStake votes hash)

/-- Cache each validator's delegated stake from the delegations of the state. -/
def refreshDelegatedStakes (delegations : List (ℕ × ℕ)) : ValidatorSet :=
  vs.ids.foldl (fun vs vid => vs.modify vid fun v =>
    { v with delegatedStake :=
        satSum ((delegations.filter (·.1 == v.id)).map (·.2)) }) vs

/-- Refreshing changes nothing when the cached stakes are up to date. -/
lemma refreshDelegatedStakes_eq_self {vs : ValidatorSet} {delegations : List (ℕ × ℕ)}
    (h : ∀ id v, vs.get id = some v →
      satSum ((delegations.filter (·.1 == v.id)).map (·.2)) = v.delegatedStake) :
    vs.refreshDelegatedStakes delegations = vs := by
  rw [refreshDelegatedStakes]
  generalize vs.ids = ids
  induction ids with
  | nil => rfl
  | cons id ids ih =>
    rw [List.foldl_cons, modify_eq_self]
    · exact ih
    · intro v hv
      rw [h id v hv]

end ValidatorSet

namespace TendermintConsensus

variable (env : Env) (c : TendermintConsensus)

/-- Block or nil with a quorum of prevotes in the current round. -/
def checkPrevoteQuorum : Option (Option Hash) := c.validatorSet.checkQuorum c.roundState.prevotes

/-- Block or nil with a quorum of precommits in the current round. -/
def checkPrecommitQuorum : Option (Option Hash) :=
  c.validatorSet.checkQuorum c.roundState.precommits

def proposerForRound (height round : ℕ) : Option ValidatorInfo :=
  c.validatorSet.leaderForEpoch env.blake3 ((height * 100 + round) % 2 ^ 64)

def amIProposer : Bool :=
  (c.proposerForRound env c.height c.roundState.round).any (·.id == c.myId)

/-! ### Slashing -/

/-- Slash and jail a validator for double-signing, by the large-deviation rate; a tenth of the
stake when the rate cannot be computed. -/
def sanovSlashEquivocation (validatorId window : ℕ) : TendermintConsensus × ℕ :=
  match c.validatorSet.get validatorId with
  | none => (c, 0)
  | some v =>
    if v.stake = 0 then (c, 0)
    else
      let w := max window 2
      let amount := (env.sanovSlash v.stake [0, w] [w - 1, 1]).getD (v.stake * 100000 / 1000000)
      let (vs, deducted) := c.validatorSet.slashWithAmount validatorId amount true
      ({ c with validatorSet := vs }, deducted)

/-- Slash a validator for downtime; jails from the third miss on. -/
def sanovSlashDowntime (validatorId missedBlocks window : ℕ) : TendermintConsensus :=
  match c.validatorSet.get validatorId with
  | none => c
  | some v =>
    let w := max window (missedBlocks + 1)
    match env.sanovSlash v.stake [w - missedBlocks, missedBlocks] [w - 1, 1] with
    | none => c
    | some amount =>
      if missedBlocks = 0 ∨ amount = 0 then c
      else
        { c with
          validatorSet :=
            (c.validatorSet.slashWithAmount validatorId amount (decide (3 ≤ missedBlocks))).1 }

/-! ### Round changes -/

/-- Linear backoff of the three timeouts, with a jitter below 100 ms. -/
def setTimeoutsForRound (round : ℕ) : TendermintConsensus :=
  let jitter := ((c.height * 31 + round) * 17 + c.myId * 7) % 2 ^ 64 % 100
  { c with
    proposeTimeout := satAdd proposeTimeoutMs (round * proposeTimeoutDeltaMs) + jitter
    prevoteTimeout := satAdd prevoteTimeoutMs (round * prevoteTimeoutDeltaMs) + jitter
    precommitTimeout := satAdd precommitTimeoutMs (round * precommitTimeoutDeltaMs) + jitter }

def enterRound (round now : ℕ) : TendermintConsensus :=
  setTimeoutsForRound { c with roundState := RoundState.new round now } round

/-- Count a missed proposal of the round's expected proposer, and slash at 500. -/
def countMissedProposal : TendermintConsensus :=
  match c.roundState.proposedBlock, c.proposerForRound env c.height c.roundState.round with
  | none, some expected =>
    let misses := (c.missedProposals.lookup expected.id).getD 0 + 1
    if 500 ≤ misses then
      let c := c.sanovSlashDowntime env expected.id misses sanovDowntimeWindow
      { c with missedProposals := c.missedProposals.insert expected.id 0 }
    else { c with missedProposals := c.missedProposals.insert expected.id misses }
  | _, _ => c

/-- Count a missed vote of a validator that neither prevoted nor precommitted in the round, and
slash at 1000. -/
def countMissedVote (vid : ℕ) : TendermintConsensus :=
  if vid ∉ c.roundState.prevotes ∧ vid ∉ c.roundState.precommits then
    let misses := (c.missedVotes.lookup vid).getD 0 + 1
    if 1000 ≤ misses then
      let c := c.sanovSlashDowntime env vid misses sanovDowntimeWindow
      { c with missedVotes := c.missedVotes.insert vid 0 }
    else { c with missedVotes := c.missedVotes.insert vid misses }
  else { c with missedVotes := c.missedVotes.insert vid 0 }

/-- Downtime detection at the end of a round. -/
def detectDowntime : TendermintConsensus :=
  let c := c.countMissedProposal env
  (c.validatorSet.active.map (·.id)).foldl (fun c vid => c.countMissedVote env vid) c

/-- Move to the next round; after `maxRoundsPerHeight` rounds, back to round 0. -/
def advanceRound (now : ℕ) : TendermintConsensus :=
  let nextRound := (c.roundState.round + 1) % 2 ^ 32
  (c.detectDowntime env).enterRound (if maxRoundsPerHeight ≤ nextRound then 0 else nextRound) now

/-! ### Votes -/

/-- Sign a vote when the node has a key pair. -/
def blsSignVote (round : ℕ) (hash : Option Hash) (phase : VotePhase) : Option Bytes :=
  c.blsKeypair.map fun sk => env.bls.sign sk (blsVoteMessage c.chainId c.height round hash phase)

variable (hash : Option Hash)

def prevoteMessage : ConsensusMessage :=
  .prevote c.height c.roundState.round hash c.myId
    (c.blsSignVote env c.roundState.round hash .prevote)

def precommitMessage : ConsensusMessage :=
  .precommit c.height c.roundState.round hash c.myId
    (c.blsSignVote env c.roundState.round hash .precommit)

/-- Record the node's own prevote. -/
def castPrevote : TendermintConsensus :=
  { c with
    roundState :=
      { c.roundState with
        prevotes := c.roundState.prevotes.insert c.myId hash
        prevoted := true } }

/-- Record the node's own precommit and its signature. -/
def castPrecommit : TendermintConsensus :=
  { c with
    roundState :=
      { c.roundState with
        precommits := c.roundState.precommits.insert c.myId hash
        precommitBlsSigs :=
          match c.blsSignVote env c.roundState.round hash .precommit with
          | some sig => c.roundState.precommitBlsSigs.insert c.myId sig
          | none => c.roundState.precommitBlsSigs
        precommitted := true } }

def enterPhase (phase : Phase) (now : ℕ) : TendermintConsensus :=
  { c with roundState := { c.roundState with phase := phase, phaseStart := now } }

variable (hash : Option Hash)

/-- Lock on the proposed block when it is the one that has the quorum. -/
def lockOn : TendermintConsensus :=
  match hash, c.roundState.proposedBlock with
  | some h, some block =>
    if blockHash env block = h then
      { c with lockedBlock := some block, lockedRound := some c.roundState.round }
    else c
  | _, _ => c

/-- The second, conflicting precommit of the test-only double-signing mode. -/
def byzantinePrecommit : List ConsensusAction :=
  match hash with
  | some legit =>
    if c.byzantineDoublePrecommit then
      let fake : Hash :=
        (legit.set 0 (legit.get 0 ^^^ 0xFF)).set 1 (legit.get 1 ^^^ UInt8.ofNat c.myId)
      [.broadcastMessage (c.precommitMessage env (some fake))]
    else []
  | none => []

/-- A quorum of prevotes was seen: precommit its value, once per round, locking on the proposed
block if it is that value. -/
def precommitOnQuorum (now : ℕ) : TendermintConsensus × List ConsensusAction :=
  if c.roundState.precommitted then (c.enterPhase .precommit now, [])
  else
    (((c.lockOn env hash).castPrecommit env hash).enterPhase .precommit now,
      .broadcastMessage (c.precommitMessage env hash) :: c.byzantinePrecommit env hash)

/-! ### Certificates and the data-availability gate -/

/-- Insert into a list sorted by the first component. -/
def insertSorted (entry : ℕ × Bytes × ℕ) : List (ℕ × Bytes × ℕ) → List (ℕ × Bytes × ℕ)
  | [] => [entry]
  | e :: l => if entry.1 ≤ e.1 then entry :: e :: l else e :: insertSorted entry l

/-- Signatures collected for a block with the stake behind each, sorted by validator id. -/
def certificateEntries (hash : Hash) : List (ℕ × Bytes × ℕ) :=
  (c.roundState.precommits.entries.filterMap fun vote =>
    if vote.2 = some hash then
      (c.roundState.precommitBlsSigs.lookup vote.1).map fun sig =>
        (vote.1, sig, c.validatorSet.votingStake vote.1)
    else none).foldr insertSorted []

/-- Aggregate the collected precommit signatures when they carry a quorum. -/
def tryBuildCommitCertificate (hash : Hash) : Option CommitCertificate :=
  let entries := c.certificateEntries hash
  if (entries.map (·.2.2)).sum % 2 ^ 64 < c.validatorSet.stakeQuorumThreshold then none
  else
    (env.bls.aggregateSignatures (entries.map (·.2.1))).map fun agg =>
      ⟨c.height, c.roundState.round, hash, agg, entries.map (·.1)⟩

variable (blockNumber : ℕ)

/-- Attestations stored for a block number. -/
def attestationsFor : List DAAttestation :=
  (c.daAttestations.lookup blockNumber).getD []

/-- Stored attestations that count: the recorded proposer's is left out outside small-cluster
mode. -/
def countedAttestations : List DAAttestation :=
  (c.attestationsFor blockNumber).filter fun att =>
    c.smallClusterDaMode || (c.daBlockProposers.lookup blockNumber != some att.validatorId)

/-- Whether the stored attestations for a block number carry a quorum. -/
def hasDaSupermajority : Bool :=
  let threshold := c.validatorSet.stakeQuorumThreshold
  if threshold = u64Max then false
  else if !c.smallClusterDaMode && (c.daBlockProposers.lookup blockNumber).isNone then false
  else if (c.daAttestations.lookup blockNumber).isNone then false
  else
    decide (threshold ≤ satSum (((c.countedAttestations blockNumber).map (·.validatorId)).dedup.map
        c.validatorSet.votingStake))

/-- ASCII of `mainnet-`. -/
def mainnetTag : Bytes := [109, 97, 105, 110, 110, 101, 116, 45]

/-- Whether the data-availability gate lets a block be committed. -/
def daGateOpen (block : Block) : Bool :=
  let enforce := block.chainId.take 8 == mainnetTag || decide (c.daEnforcementHeight ≤ c.height)
  !(enforce && block.dataRoot.isSome && !c.hasDaSupermajority block.number)

/-- Take the proposed block, attach a certificate when it has none, and leave the round. -/
def commitProposed (block : Block) (hash : Hash) : TendermintConsensus × ConsensusAction :=
  let cert := block.commitCertificate.or (c.tryBuildCommitCertificate env hash)
  ({ c with roundState := { c.roundState with proposedBlock := none, phase := .commit } },
    .commitBlock { block with commitCertificate := cert })

def dropProposed : TendermintConsensus :=
  { c with roundState := { c.roundState with proposedBlock := none } }

end TendermintConsensus

end EvaporChain
