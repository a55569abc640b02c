import EvaporChain.Consensus.Quorum

/-!
# The consensus engine: `tick`, `on_message` and `on_block_committed`

The entry points of `tendermint.rs`. The clock, the delegations of the state database, what a
proposer draws from its mempool and what applying a block leaves are inputs of a call.
-/

namespace EvaporChain

open Core

/-- Clock readings (monotonic, and seconds since the epoch) and chain at the time of a call. -/
structure CallInput where
  now : ℕ
  nowSecs : ℕ
  view : ChainView

/-- What a proposer puts into a fresh block besides the node's own state. -/
structure ProposalInput where
  transactions : List Bytes
  vrfOutput : Option Hash
  vrfProof : Option Bytes
  daCertificate : Option Bytes
  postStateRoot : Option Hash

/-- Inputs of a tick: also the delegations `(validator, amount)` and the mempool draw. -/
structure TickInput extends CallInput where
  delegations : List (ℕ × ℕ)
  proposal : ProposalInput

/-- Inputs of a commit: the applied block with the state root, validator set and checkpoints
that applying it left. -/
structure CommitInput where
  now : ℕ
  block : Block
  stateRoot : Hash
  validatorSet : ValidatorSet
  weakSubjectivityCheckpoints : List (ℕ × Hash)

/-- Calls into the engine. -/
inductive Event
  | tick (input : TickInput)
  | message (input : CallInput) (msg : ConsensusMessage)
  | committed (input : CommitInput)

namespace TendermintConsensus

variable (env : Env) (c : TendermintConsensus)

/-! ### Proposing -/

/-- Announcement of the node's public key, for fresh registrations. -/
def makeKeyAnnounce : Option ConsensusMessage :=
  c.blsKeypair.map fun sk =>
    .keyAnnounce c.myId (env.bls.publicKeyBytes sk) (env.bls.proofOfPossession sk) []

def makeDaAttestation (blockNumber : ℕ) (dataRoot : Hash) (samples : ℕ) : Option ConsensusMessage :=
  c.blsKeypair.map fun sk =>
    let stake := c.validatorSet.stakeOf c.myId
    .daAttestation
      { blockNumber := blockNumber
        dataRoot := dataRoot
        validatorId := c.myId
        samplesVerified := samples
        stake := stake
        signature := env.bls.sign sk
          (daAttestationMessage blockNumber dataRoot c.myId samples stake)
        publicKey := env.bls.publicKeyBytes sk }

/-- Sample a proposed block and attest when enough samples verified. -/
def performDaSampling (block : Block) : Option ConsensusMessage :=
  match block.dataRoot with
  | none => none
  | some root =>
    if block.transactions = [] then
      if root = env.emptyBlockDataRoot block.number block.parentHash then
        c.makeDaAttestation env block.number root 0
      else none
    else
      match env.daSampling c.myId block with
      | some samples => c.makeDaAttestation env block.number root samples
      | none => none

/-- Parent of a fresh block. -/
def currentTip (view : ChainView) : Hash :=
  match c.parentAcceptanceMode with
  | .mcc => view.mccSelectTip.getD c.parentHash
  | _ => c.parentHash

/-- The block to propose: the locked one, or a fresh one. -/
def createProposal (input : TickInput) : Block :=
  match c.lockedBlock with
  | some locked => locked
  | none =>
    let parent := c.currentTip input.view
    let draw := input.proposal
    let roots := (env.da2dEncode draw.transactions).getD ([], [])
    { number := c.height
      epoch := c.epoch + 1
      parentHash := parent
      stateRoot := c.currentStateRoot
      transactions := draw.transactions
      timestamp := input.nowSecs
      chainId := c.chainId.bytes
      producerId := some c.myId
      vrfOutput := draw.vrfOutput
      vrfProof := draw.vrfProof
      dataRoot :=
        if draw.transactions = [] then some (env.emptyBlockDataRoot c.height parent)
        else env.daEncode draw.transactions
      daCertificate := draw.daCertificate
      commitCertificate := none
      novaProof := none
      protocolVersion := 0
      daRowRoots := if draw.transactions = [] then [] else roots.1
      daColRoots := if draw.transactions = [] then [] else roots.2
      postStateRoot := draw.postStateRoot }

def proposalMessage (block : Block) : ConsensusMessage :=
  .proposal c.height c.roundState.round block c.myId
    (c.blsSignVote env c.roundState.round (some (blockHash env block)) .proposal)

def adoptBlock (block : Block) : TendermintConsensus :=
  { c with roundState := { c.roundState with proposedBlock := some block } }

def recordDaProposer (blockNumber producer : ℕ) : TendermintConsensus :=
  { c with daBlockProposers := c.daBlockProposers.insert blockNumber producer }

/-- Propose a block, prevote for it and attest to its data. -/
def propose (input : TickInput) : TendermintConsensus × List ConsensusAction :=
  let block := c.createProposal env input
  let hash := blockHash env block
  let attestation := block.dataRoot.bind fun root => c.makeDaAttestation env block.number root 1
  ((((c.adoptBlock block).castPrevote (some hash)).recordDaProposer block.number c.myId).enterPhase
      .prevote input.now,
    [.broadcastMessage (c.proposalMessage env block),
      .broadcastMessage (c.prevoteMessage env (some hash))] ++
      attestation.toList.map .broadcastMessage)

/-! ### Tick -/

/-- Whether a phase has lasted longer than `timeout`. -/
def timedOut (timeout now : ℕ) : Bool := decide (timeout < now - c.roundState.phaseStart)

/-- The timeout of the propose phase: prevote nil unless draining or already prevoted. -/
def proposeTimedOut (now : ℕ) : TendermintConsensus × List ConsensusAction :=
  if !c.draining && !c.roundState.prevoted then
    ((c.castPrevote none).enterPhase .prevote now, [.broadcastMessage (c.prevoteMessage env none)])
  else (c.enterPhase .prevote now, [])

def tickPropose (input : TickInput) : TendermintConsensus × List ConsensusAction :=
  let (c, acts) :=
    if !c.draining && c.amIProposer env && c.roundState.proposedBlock.isNone then
      c.propose env input
    else (c, [])
  if c.timedOut c.proposeTimeout input.now then
    let (c, acts') := c.proposeTimedOut env input.now
    (c, acts ++ acts')
  else (c, acts)

/-- The timeout of the prevote phase: precommit nil unless already precommitted. -/
def prevoteTimedOut (now : ℕ) : TendermintConsensus × List ConsensusAction :=
  if c.roundState.precommitted then (c.enterPhase .precommit now, [])
  else
    ((c.castPrecommit env none).enterPhase .precommit now,
      [.broadcastMessage (c.precommitMessage env none)])

def tickPrevote (now : ℕ) : TendermintConsensus × List ConsensusAction :=
  let (c, acts) :=
    match c.checkPrevoteQuorum with
    | some hash => c.precommitOnQuorum env hash now
    | none => (c, [])
  if c.timedOut c.prevoteTimeout now then
    let (c, acts') := c.prevoteTimedOut env now
    (c, acts ++ acts')
  else (c, acts)

/-- Commit on a quorum of precommits. The flag says that the block is the right one but its
data-availability quorum is missing. -/
def tryCommit : TendermintConsensus × List ConsensusAction × Bool :=
  match c.checkPrecommitQuorum, c.roundState.proposedBlock with
  | some (some hash), some block =>
    if blockHash env block ≠ hash then
      (c.dropProposed, [.requestSync c.height (c.height + 1)], false)
    else if c.daGateOpen block then
      let (c', act) := c.commitProposed env block hash
      (c', [act], false)
    else (c, [], true)
  | _, _ => (c, [], false)

def tickPrecommit (now : ℕ) : TendermintConsensus × List ConsensusAction :=
  let (c, acts, waiting) := c.tryCommit env
  if waiting then (c, acts)
  else
    let c := if c.checkPrecommitQuorum = some none then c.advanceRound env now else c
    let c := if c.timedOut c.precommitTimeout now then c.advanceRound env now else c
    (c, acts)

/-- Re-broadcast of the node's key, every 50 blocks at the start of a height. -/
def announceKey : List ConsensusAction :=
  if 0 < c.height ∧ c.height % 50 = 0 ∧ c.roundState.phase = .propose ∧ c.roundState.round = 0 then
    (c.makeKeyAnnounce env).toList.map .broadcastMessage
  else []

def tickPhase (input : TickInput) : TendermintConsensus × List ConsensusAction :=
  match c.roundState.phase with
  | .propose => c.tickPropose env input
  | .prevote => c.tickPrevote env input.now
  | .precommit => c.tickPrecommit env input.now
  | .commit => (c.dropProposed, [])

/-- Drive the engine by the clock. -/
def tick (input : TickInput) : Outcome :=
  let c := { c with validatorSet := c.validatorSet.refreshDelegatedStakes input.delegations }
  let (c', acts) := c.tickPhase env input
  ⟨c', c.announceKey env ++ acts, []⟩

/-! ### Keys and attestations -/

def registerKey (vid : ℕ) (pk pop : Bytes) : TendermintConsensus :=
  { c with
    validatorSet := c.validatorSet.modify vid fun v =>
      { v with blsPublicKey := some pk, popVerified := !pop.isEmpty } }

/-- A first key is admitted with its proof of possession; a different key replaces a registered
one only with a signature of the old key. -/
def keyAdmitted (vid : ℕ) (pk pop continuity : Bytes) : Bool :=
  match c.validatorSet.get vid with
  | none => false
  | some v =>
    pk.length == 48 && (pop.isEmpty || env.bls.verifyProofOfPossession pk pop) &&
      match v.blsPublicKey with
      | none => true
      | some old =>
        old != pk && !continuity.isEmpty &&
          env.bls.verify (blsContinuityMessage c.chainId vid pk) continuity old

def onKeyAnnounce (vid : ℕ) (pk pop continuity : Bytes) : TendermintConsensus :=
  if c.keyAdmitted env vid pk pop continuity then c.registerKey vid pk pop else c

variable (att : DAAttestation)

/-- The attester is known, names its registered key, and its signature verifies. -/
def attestationValid : Bool :=
  match c.validatorSet.get att.validatorId with
  | none => false
  | some v =>
    v.blsPublicKey == some att.publicKey &&
      env.bls.verify (daAttestationMessage att.blockNumber att.dataRoot att.validatorId
        att.samplesVerified att.stake) att.signature att.publicKey

/-- The first attestation of a validator for a block number is kept. -/
def alreadyAttested : Bool :=
  (c.attestationsFor att.blockNumber).any (·.validatorId == att.validatorId)

def storeAttestation : TendermintConsensus :=
  { c with
    daAttestations :=
      c.daAttestations.insert att.blockNumber (c.attestationsFor att.blockNumber ++ [att]) }

/-- Commit when a late attestation opens the gate for the block that has its precommits. -/
def commitOnAttestation : TendermintConsensus × List ConsensusAction :=
  match c.checkPrecommitQuorum, c.roundState.proposedBlock with
  | some (some hash), some block =>
    if blockHash env block = hash ∧ c.daGateOpen block then
      let (c', act) := c.commitProposed env block hash
      (c', [act])
    else (c, [])
  | _, _ => (c, [])

def onDaAttestation : TendermintConsensus × List ConsensusAction :=
  if !c.attestationValid env att || c.alreadyAttested att then (c, [])
  else
    let c := c.storeAttestation att
    if att.blockNumber = c.height ∧ c.roundState.phase = .precommit then c.commitOnAttestation env
    else (c, [])

/-! ### Proposals -/

/-- Checks on a proposal before its parent is looked at: the right proposer, block size,
transaction count, gas and chain id. -/
def proposalAdmissible (height round : ℕ) (block : Block) (proposerId : ℕ) : Bool :=
  (c.proposerForRound env height round).map (·.id) == some proposerId &&
    decide (env.blockJsonLen block ≤ maxBlockSizeBytes) &&
    decide (block.transactions.length ≤ maxTxsPerBlock) && (c.blockGasLimit == 0 ||
      decide (satSum (block.transactions.map env.estimateGas) ≤ c.blockGasLimit)) &&
    (c.chainId.bytes.isEmpty || block.chainId.isEmpty || block.chainId == c.chainId.bytes)

def parentAccepted (view : ChainView) (block : Block) : Bool :=
  match c.parentAcceptanceMode with
  | .mccFull => view.candidateHeads.contains block.parentHash || block.parentHash == c.parentHash
  | .mcc => view.mccAccepts c.parentHash block.parentHash
  | .linear => block.parentHash == c.parentHash

/-- The timestamp does not run backwards and is at most 30 seconds ahead. -/
def timestampValid (nowSecs : ℕ) (block : Block) : Bool :=
  (block.timestamp == 0 || c.lastBlockTimestamp == 0 ||
      decide (c.lastBlockTimestamp ≤ block.timestamp)) &&
    decide (block.timestamp ≤ satAdd nowSecs 30)

/-- A proposer with a registered key must have signed the proposal. -/
def proposalSigned (height round : ℕ) (block : Block) (proposerId : ℕ) (sig : Option Bytes) :
    Bool :=
  match (c.validatorSet.get proposerId).bind (·.blsPublicKey) with
  | none => true
  | some pk =>
    sig.any fun sig => env.bls.verify
      (blsVoteMessage c.chainId height round (some (blockHash env block)) .proposal) sig pk

/-- Hash of the block a proposer was already seen to propose in a slot. -/
def seenProposal (height round proposerId : ℕ) : Option Hash :=
  ((c.proposalsSeen.lookup (height, round)).getD []).find? (·.1 == proposerId) |>.map (·.2)

/-- Remember a proposal, unless its proposer is already recorded for the slot. -/
def recordProposal (height round proposerId : ℕ) (hash : Hash) : TendermintConsensus :=
  match c.seenProposal height round proposerId with
  | some _ => c
  | none =>
    { c with
      proposalsSeen := c.proposalsSeen.insert (height, round)
        ((c.proposalsSeen.lookup (height, round)).getD [] ++ [(proposerId, hash)]) }

/-- The block neither precedes nor contradicts the trusted and the latest rolling checkpoint. -/
def checkWeakSubjectivity (block : Block) : Bool :=
  c.trustedCheckpoint.all respects && c.weakSubjectivityCheckpoints.getLast?.all respects
where
  respects (checkpoint : ℕ × Hash) : Bool :=
    decide (checkpoint.1 ≤ block.number) &&
      !(block.number == checkpoint.1 && block.stateRoot != checkpoint.2)

/-- Loop of `verify_signatures_bound`: every attestation is for the certificate's block, no
validator appears twice, and registered validators signed with their registered keys; their
own stakes are added up. -/
def scanAttestations (cert : DACertificate) : List DAAttestation → List ℕ → ℕ → Option ℕ
  | [], _, stake => some stake
  | att :: atts, seen, stake =>
    if att.blockNumber ≠ cert.blockNumber ∨ att.dataRoot ≠ cert.dataRoot ∨
        att.validatorId ∈ seen then none
    else
      match c.validatorSet.get att.validatorId with
      | none => scanAttestations cert atts (att.validatorId :: seen) stake
      | some v =>
        match v.blsPublicKey with
        | none => scanAttestations cert atts (att.validatorId :: seen) stake
        | some _ =>
          if c.attestationValid env att then
            scanAttestations cert atts (att.validatorId :: seen) (satAdd stake v.stake)
          else none

/-- The certificate of an earlier block that a block carries; it may be missing below the
enforcement height. -/
def verifyDaCertificate (block : Block) : Bool :=
  match block.daCertificate with
  | none => decide (block.number < c.daEnforcementHeight)
  | some bytes =>
    match env.decodeDaCertificate bytes with
    | none => false
    | some cert =>
      cert.totalStake == c.validatorSet.totalStake &&
        decide (2 * cert.totalStake < 3 * cert.attestedStake) && !cert.attestations.isEmpty &&
        decide (cert.blockNumber ≤ block.number) && decide (block.number - 12 ≤ cert.blockNumber) &&
        (c.scanAttestations env cert cert.attestations [] 0).any fun stake =>
          decide (2 * cert.totalStake < 3 * stake)

/-- The VRF proof, when there is one and the proposer has a VRF key, verifies. -/
def vrfValid (height round : ℕ) (block : Block) (proposerId : ℕ) : Bool :=
  match block.vrfOutput, block.vrfProof,
      (c.validatorSet.get proposerId).bind (·.vrfPublicKey) with
  | some out, some proof, some vrfPk =>
    env.vrfVerify vrfPk (env.leaderVrfInput c.chainId height round) out proof
  | _, _, _ => true

/-- The row and column roots, when given, are those of the 2D encoding. -/
def rootsValid (block : Block) : Bool :=
  block.daRowRoots.isEmpty || (env.da2dEncode block.transactions).all fun roots =>
      roots.1 == block.daRowRoots && roots.2 == block.daColRoots

/-- Checks on a proposal after equivocation detection. -/
def proposalValid (view : ChainView) (height round : ℕ) (block : Block) (proposerId : ℕ) : Bool :=
  (match env.verifyBlockProof, block.novaProof with
    | some verifier, some proof => verifier proof block.number c.genesisStateRoot
    | _, _ => true) &&
    !(decide (1 < block.number) && block.stateRoot == Hash.zero &&
      c.currentStateRoot != Hash.zero) &&
    c.vrfValid env height round block proposerId && c.checkWeakSubjectivity block &&
    c.verifyDaCertificate env block && view.refundsValid block && rootsValid env block

/-- What to prevote on a proposal: a locked node prevotes its locked block or nil. -/
def voteHash (hash : Hash) : Option Hash :=
  match c.lockedBlock, c.lockedRound with
  | some locked, some _ => if blockHash env locked = hash then some hash else none
  | _, _ => some hash

def recordProducer (vote : Option Hash) (block : Block) : TendermintConsensus :=
  match vote, block.producerId with
  | some _, some producer => c.recordDaProposer block.number producer
  | _, _ => c

/-- Prevote on an adopted block, and attest to its data when voting for it. -/
def voteOnProposal (block : Block) (now : ℕ) : TendermintConsensus × List ConsensusAction :=
  let vote := c.voteHash env (blockHash env block)
  (((c.castPrevote vote).recordProducer vote block).enterPhase .prevote now,
    .broadcastMessage (c.prevoteMessage env vote) ::
      if vote.isSome then (c.performDaSampling env block).toList.map .broadcastMessage else [])

/-- A proposal passed its checks: adopt the block, and prevote unless already done. -/
def acceptProposal (block : Block) (now : ℕ) : TendermintConsensus × List ConsensusAction :=
  let c := c.adoptBlock block
  if c.roundState.prevoted then (c, []) else c.voteOnProposal env block now

def onProposal (input : CallInput) (height round : ℕ) (block : Block) (proposerId : ℕ)
    (sig : Option Bytes) : Outcome :=
  if !c.proposalAdmissible env height round block proposerId then ⟨c, [], []⟩
  else if !c.parentAccepted input.view block then
    ⟨c, [.requestSync (c.height - 5) height], []⟩
  else if !c.timestampValid input.nowSecs block ||
      !c.proposalSigned env height round block proposerId sig then ⟨c, [], []⟩
  else if (c.seenProposal height round proposerId).any (· != blockHash env block) then
    let (c', slashed) := c.sanovSlashEquivocation env proposerId sanovEquivocationWindow
    ⟨c', [.slashValidator proposerId slashed .equivocation], [proposerId]⟩
  else
    let c := c.recordProposal height round proposerId (blockHash env block)
    if c.proposalValid env input.view height round block proposerId then
      let (c, acts) := c.acceptProposal env block input.now
      ⟨c, acts, []⟩
    else ⟨c, [], []⟩

/-! ### Votes of others -/

/-- Whether a vote may be recorded: the voter is known and its signature verifies under its
registered key. A voter without key passes unless every validator of the set has one. -/
def voteAuthentic (round : ℕ) (hash : Option Hash) (vid : ℕ) (sig : Option Bytes)
    (phase : VotePhase) : Bool :=
  match c.validatorSet.get vid with
  | none => false
  | some v =>
    match v.blsPublicKey with
    | some pk =>
      sig.any fun sig =>
        env.bls.verify (blsVoteMessage c.chainId c.height round hash phase) sig pk
    | none => !c.validatorSet.hasBlsKeys

def recordPrevote (vid : ℕ) (hash : Option Hash) : TendermintConsensus :=
  { c with
    roundState := { c.roundState with prevotes := c.roundState.prevotes.insert vid hash } }

def recordPrecommit (vid : ℕ) (hash : Option Hash) (sig : Option Bytes) : TendermintConsensus :=
  { c with
    roundState :=
      { c.roundState with
        precommits := c.roundState.precommits.insert vid hash
        precommitBlsSigs :=
          match sig with
          | some sig => c.roundState.precommitBlsSigs.insert vid sig
          | none => c.roundState.precommitBlsSigs } }

def slashVoter (vid : ℕ) : Outcome :=
  ⟨(c.sanovSlashEquivocation env vid sanovEquivocationWindow).1, [], [vid]⟩

def onPrevote (now height round : ℕ) (hash : Option Hash) (vid : ℕ) (sig : Option Bytes) :
    Outcome :=
  if height ≠ c.height ∨ round ≠ c.roundState.round then ⟨c, [], []⟩
  else if !c.voteAuthentic env round hash vid sig .prevote then ⟨c, [], []⟩
  else if (c.roundState.prevotes.lookup vid).any (· != hash) then c.slashVoter env vid
  else
    let c := c.recordPrevote vid hash
    match c.roundState.phase, c.checkPrevoteQuorum with
    | .prevote, some quorum =>
      let (c, acts) := c.precommitOnQuorum env quorum now
      ⟨c, acts, []⟩
    | _, _ => ⟨c, [], []⟩

def onPrecommit (height round : ℕ) (hash : Option Hash) (vid : ℕ) (sig : Option Bytes) : Outcome :=
  if height ≠ c.height ∨ round ≠ c.roundState.round then ⟨c, [], []⟩
  else if !c.voteAuthentic env round hash vid sig .precommit then ⟨c, [], []⟩
  else if (c.roundState.precommits.lookup vid).any (· != hash) then c.slashVoter env vid
  else
    let (c, acts, _) := (c.recordPrecommit vid hash sig).tryCommit env
    ⟨c, acts, []⟩

/-! ### Messages -/

/-- A message from a height ahead: ask for blocks, except that a node one block behind waits
unless it is stuck with a precommitted block. -/
def onFutureHeight (height : ℕ) : List ConsensusAction :=
  let stuck := height == c.height + 1 && c.roundState.phase == .precommit &&
    c.roundState.proposedBlock.isSome
  if c.height + 1 < height ∨ stuck then
    [.requestSync c.height (max height (c.height + 1))]
  else []

/-- Jump to the round of a message that is ahead. -/
def skipTo (round now : ℕ) : TendermintConsensus :=
  if c.roundState.round < round then c.enterRound round now else c

/-- The filters in front of proposals and votes: old heights and rounds are ignored, a round
ahead is entered first. -/
def inSlot (height round now : ℕ) (handler : TendermintConsensus → Outcome) : Outcome :=
  if height < c.height then ⟨c, [], []⟩
  else if c.height < height then ⟨c, c.onFutureHeight height, []⟩
  else if round < c.roundState.round then ⟨c, [], []⟩
  else handler (c.skipTo round now)

def onMessage (input : CallInput) : ConsensusMessage → Outcome
  | .keyAnnounce vid pk pop continuity => ⟨c.onKeyAnnounce env vid pk pop continuity, [], []⟩
  | .daAttestation att =>
    let (c, acts) := c.onDaAttestation env att
    ⟨c, acts, []⟩
  | .oracleVote _ => ⟨c, [], []⟩
  | .proposal height round block proposerId sig =>
    c.inSlot height round input.now fun c =>
      c.onProposal env input height round block proposerId sig
  | .prevote height round hash vid sig =>
    c.inSlot height round input.now fun c => c.onPrevote env input.now height round hash vid sig
  | .precommit height round hash vid sig =>
    c.inSlot height round input.now fun c => c.onPrecommit env height round hash vid sig

/-! ### Committed blocks -/

/-- Forget the proposals of heights below `cutoff`. -/
def retainProposals (cutoff : ℕ) : Dict (ℕ × ℕ) (List (ℕ × Hash)) :=
  ⟨c.proposalsSeen.entries.filter fun seen => decide (cutoff ≤ seen.1.1),
    c.proposalsSeen.nodupKeys.sublist List.filter_sublist⟩

/-- Move to the next height after a block was applied. -/
def onBlockCommitted (input : CommitInput) : TendermintConsensus :=
  let block := input.block
  let c :=
    match block.producerId with
    | some producer =>
      { c.recordDaProposer block.number producer with
        missedProposals := c.missedProposals.insert producer 0 }
    | none => c
  enterRound
    { c with
      height := c.height + 1
      epoch := block.epoch
      parentHash := env.blake3 (leBytes 8 block.number ++ leBytes 8 block.epoch ++
        block.stateRoot.toList ++ block.parentHash.toList)
      currentStateRoot := input.stateRoot
      lastBlockTimestamp := if 0 < block.timestamp then block.timestamp else c.lastBlockTimestamp
      validatorSet := input.validatorSet
      weakSubjectivityCheckpoints := input.weakSubjectivityCheckpoints
      proposalsSeen := c.retainProposals (c.height + 1 - 10)
      lockedBlock := none
      lockedRound := none } 0 input.now

/-- A call into the engine. -/
def handle : Event → Outcome
  | .tick input => c.tick env input
  | .message input msg => c.onMessage env input msg
  | .committed input => ⟨c.onBlockCommitted env input, [], []⟩

end TendermintConsensus

/-! ### A transparent environment, for concrete runs -/

/-- A signature is the key followed by the message; a key pair has equal halves. -/
def transparentBls : Bls where
  verify msg sig pk := sig == pk ++ msg
  aggregateVerify _ _ _ := false
  aggregateSignatures sigs := some sigs.flatten
  verifyProofOfPossession _ _ := true
  sign sk msg := sk ++ msg
  publicKeyBytes sk := sk
  proofOfPossession _ := []

/-- Hashes repeat one byte of the input, which in a block is the last byte of the timestamp. -/
def transparentEnv : Env where
  bls := transparentBls
  blake3 bytes := List.Vector.replicate 32 (bytes.getD 80 0)
  blockJsonLen _ := 0
  estimateGas _ := 0
  verifyBlockProof := none
  leaderVrfInput _ _ _ := []
  vrfVerify _ _ _ _ := true
  decodeDaCertificate _ := none
  emptyBlockDataRoot _ _ := Hash.zero
  daEncode _ := none
  da2dEncode _ := none
  daSampling _ _ := none
  sanovSlash _ _ _ := none

/-- A call at a clock reading, on a chain without forks. -/
def callAt (now : ℕ) : CallInput := ⟨now, 0, ⟨[], fun _ _ => false, none, fun _ => true⟩⟩

/-- A tick at a clock reading, with the delegations of `fourKeyed` and an empty mempool. -/
def tickAt (now nowSecs : ℕ) : TickInput where
  now := now
  nowSecs := nowSecs
  view := (callAt now).view
  delegations := [(1, 10), (2, 10), (3, 10)]
  proposal := ⟨[], none, none, none, none⟩

/-- Four validators of equal voting power with keys. Only the fourth has stake of its own, so it
leads every round. -/
def fourKeyed : ValidatorSet where
  validators :=
    [ { id := 1, stake := 0, delegatedStake := 10, blsPublicKey := some [1] },
      { id := 2, stake := 0, delegatedStake := 10, blsPublicKey := some [2] },
      { id := 3, stake := 0, delegatedStake := 10, blsPublicKey := some [3] },
      { id := 4, stake := 10, blsPublicKey := some [4] } ]

/-- Validator `vid` of `fourKeyed` on the chain with the empty identifier. -/
def fourNode (vid : ℕ) : TendermintConsensus :=
  .new vid fourKeyed ChainId.empty (some [UInt8.ofNat vid]) 0

def signedPrevote (vid round : ℕ) (hash : Option Hash) : ConsensusMessage :=
  .prevote 1 round hash vid
    (some (UInt8.ofNat vid :: blsVoteMessage ChainId.empty 1 round hash .prevote))

def signedPrecommit (vid round : ℕ) (hash : Option Hash) : ConsensusMessage :=
  .precommit 1 round hash vid
    (some (UInt8.ofNat vid :: blsVoteMessage ChainId.empty 1 round hash .precommit))

end EvaporChain
