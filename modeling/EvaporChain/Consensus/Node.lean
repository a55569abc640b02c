import EvaporChain.Core.Codec
import EvaporChain.Core.Dict
import EvaporChain.Consensus.ValidatorSet
import EvaporChain.Consensus.Signature

/-!
# Blocks, consensus messages and the state of a node

The data of `tendermint.rs`. A transaction is its serialised form; the engine only hashes it
and asks for its gas. External computations the engine consults (hashing, VRF, erasure coding,
serialisation) are the fields of `Env`; what depends on the chain so far is in `ChainView`.
-/

namespace EvaporChain

open Core

/-! ### Constants -/

def sanovEquivocationWindow : ℕ := 100
def sanovDowntimeWindow : ℕ := 20
def proposeTimeoutMs : ℕ := 8000
def prevoteTimeoutMs : ℕ := 32000
def precommitTimeoutMs : ℕ := 32000
def proposeTimeoutDeltaMs : ℕ := 1000
def prevoteTimeoutDeltaMs : ℕ := 2000
def precommitTimeoutDeltaMs : ℕ := 2000
def maxRoundsPerHeight : ℕ := 10
def maxBlockSizeBytes : ℕ := 2 * 1024 * 1024
def maxTxsPerBlock : ℕ := 200

/-! ### Data -/

/-- Aggregate signature proving that a block was committed. -/
structure CommitCertificate where
  height : ℕ
  round : ℕ
  blockHash : Hash
  aggregateSignature : Bytes
  signerIds : List ℕ
deriving DecidableEq

/-- A block; the fields the engine reads. -/
structure Block where
  number : ℕ
  epoch : ℕ
  parentHash : Hash
  stateRoot : Hash
  transactions : List Bytes
  timestamp : ℕ
  chainId : Bytes
  producerId : Option ℕ
  vrfOutput : Option Hash
  vrfProof : Option Bytes
  dataRoot : Option Hash
  daCertificate : Option Bytes
  commitCertificate : Option CommitCertificate
  novaProof : Option Bytes
  protocolVersion : ℕ
  daRowRoots : List Hash
  daColRoots : List Hash
  postStateRoot : Option Hash
deriving DecidableEq

/-- A validator's signed statement that the data behind `dataRoot` is available. -/
structure DAAttestation where
  blockNumber : ℕ
  dataRoot : Hash
  validatorId : ℕ
  samplesVerified : ℕ
  stake : ℕ
  signature : Bytes
  publicKey : Bytes
deriving DecidableEq

/-- Attestations of a supermajority for one block. -/
structure DACertificate where
  blockNumber : ℕ
  dataRoot : Hash
  attestations : List DAAttestation
  attestedStake : ℕ
  totalStake : ℕ
deriving DecidableEq

/-- Messages exchanged between validators. -/
inductive ConsensusMessage
  | proposal (height round : ℕ) (block : Block) (proposerId : ℕ) (blsSignature : Option Bytes)
  | prevote (height round : ℕ) (blockHash : Option Hash) (validatorId : ℕ)
      (blsSignature : Option Bytes)
  | precommit (height round : ℕ) (blockHash : Option Hash) (validatorId : ℕ)
      (blsSignature : Option Bytes)
  | keyAnnounce (validatorId : ℕ) (blsPublicKey proofOfPossession continuitySignature : Bytes)
  | daAttestation (att : DAAttestation)
  | oracleVote (payload : Bytes)
deriving DecidableEq

/-- Height a message is for; height-independent messages carry 0. -/
def ConsensusMessage.height : ConsensusMessage → ℕ
  | .proposal height .. => height
  | .prevote height .. => height
  | .precommit height .. => height
  | .keyAnnounce .. => 0
  | .daAttestation att => att.blockNumber
  | .oracleVote _ => 0

def ConsensusMessage.round : ConsensusMessage → ℕ
  | .proposal _ round .. => round
  | .prevote _ round .. => round
  | .precommit _ round .. => round
  | .keyAnnounce .. => 0
  | .daAttestation _ => 0
  | .oracleVote _ => 0

inductive Phase
  | propose
  | prevote
  | precommit
  | commit
deriving DecidableEq, Repr

structure RoundState where
  round : ℕ
  phase : Phase
  proposedBlock : Option Block
  /-- Prevotes received; `none` is a vote for nil. -/
  prevotes : Dict ℕ (Option Hash)
  precommits : Dict ℕ (Option Hash)
  precommitBlsSigs : Dict ℕ Bytes
  /-- Clock reading when the phase started. -/
  phaseStart : ℕ
  prevoted : Bool
  precommitted : Bool

def RoundState.new (round now : ℕ) : RoundState where
  round := round
  phase := .propose
  proposedBlock := none
  prevotes := ∅
  precommits := ∅
  precommitBlsSigs := ∅
  phaseStart := now
  prevoted := false
  precommitted := false

inductive SlashReason
  | equivocation
  | downtime (missedBlocks : ℕ)
deriving DecidableEq, Repr

/-- What the engine asks the node to do. -/
inductive ConsensusAction
  | broadcastMessage (msg : ConsensusMessage)
  | commitBlock (block : Block)
  | requestSync (fromHeight toHeight : ℕ)
  | slashValidator (validatorId amount : ℕ) (reason : SlashReason)
deriving DecidableEq

/-- How the parent of a proposal is checked. -/
inductive ParentAcceptanceMode
  | linear
  | mcc
  | mccFull
deriving DecidableEq, Repr

/-- State of the consensus engine of one node. -/
structure TendermintConsensus where
  myId : ℕ
  height : ℕ
  epoch : ℕ
  parentHash : Hash
  validatorSet : ValidatorSet
  roundState : RoundState
  lockedBlock : Option Block
  lockedRound : Option ℕ
  proposeTimeout : ℕ
  prevoteTimeout : ℕ
  precommitTimeout : ℕ
  /-- Proposals seen per (height, round): proposer and block hash. -/
  proposalsSeen : Dict (ℕ × ℕ) (List (ℕ × Hash))
  missedProposals : Dict ℕ ℕ
  missedVotes : Dict ℕ ℕ
  weakSubjectivityCheckpoints : List (ℕ × Hash)
  trustedCheckpoint : Option (ℕ × Hash)
  /-- Secret key of the node's BLS pair. -/
  blsKeypair : Option Bytes
  genesisStateRoot : Hash
  daAttestations : Dict ℕ (List DAAttestation)
  daBlockProposers : Dict ℕ ℕ
  currentStateRoot : Hash
  daEnforcementHeight : ℕ
  chainId : ChainId
  parentAcceptanceMode : ParentAcceptanceMode
  lastBlockTimestamp : ℕ
  draining : Bool
  smallClusterDaMode : Bool
  /-- Test-only: shadow every precommit by a second, conflicting one. -/
  byzantineDoublePrecommit : Bool
  blockGasLimit : ℕ

/-- A node at height 1 of a new chain. The constructor leaves the chain id and the key pair
empty; the node binary sets them before the first tick. -/
def TendermintConsensus.new (myId : ℕ) (validatorSet : ValidatorSet) (chainId : ChainId)
    (blsKeypair : Option Bytes) (now : ℕ) : TendermintConsensus where
  myId := myId
  height := 1
  epoch := 0
  parentHash := Hash.zero
  validatorSet := validatorSet
  roundState := RoundState.new 0 now
  lockedBlock := none
  lockedRound := none
  proposeTimeout := proposeTimeoutMs
  prevoteTimeout := prevoteTimeoutMs
  precommitTimeout := precommitTimeoutMs
  proposalsSeen := ∅
  missedProposals := ∅
  missedVotes := ∅
  weakSubjectivityCheckpoints := []
  trustedCheckpoint := none
  blsKeypair := blsKeypair
  genesisStateRoot := Hash.zero
  daAttestations := ∅
  daBlockProposers := ∅
  currentStateRoot := Hash.zero
  daEnforcementHeight := 100
  chainId := chainId
  parentAcceptanceMode := .linear
  lastBlockTimestamp := 0
  draining := false
  smallClusterDaMode := false
  byzantineDoublePrecommit := false
  blockGasLimit := 500000

/-- The node's chain and block DAG at the time of a call, as far as the engine asks. -/
structure ChainView where
  /-- Leaves of the block DAG. -/
  candidateHeads : List Hash
  /-- Verdict of the maximum-caliber fork choice on a local and a candidate parent. -/
  mccAccepts : Hash → Hash → Bool
  /-- Tip selected by the maximum-caliber fork choice. -/
  mccSelectTip : Option Hash
  /-- Whether the refunds of a block are the ones the chain expects. -/
  refundsValid : Block → Bool

/-- What the engine computes with code outside it. -/
structure Env where
  bls : Bls
  blake3 : Bytes → Hash
  /-- Size of a block's JSON encoding. -/
  blockJsonLen : Block → ℕ
  estimateGas : Bytes → ℕ
  /-- The Nova proof verifier, when one is configured. -/
  verifyBlockProof : Option (Bytes → ℕ → Hash → Bool)
  leaderVrfInput : ChainId → ℕ → ℕ → Bytes
  /-- `vrfVerify vrfPk alpha output proof` -/
  vrfVerify : Bytes → Bytes → Hash → Bytes → Bool
  decodeDaCertificate : Bytes → Option DACertificate
  /-- Sentinel data root of an empty block, from its number and parent hash. -/
  emptyBlockDataRoot : ℕ → Hash → Hash
  /-- Commitment root of the erasure-coded transaction list. -/
  daEncode : List Bytes → Option Hash
  /-- Row and column roots of the 2D encoding of a transaction list. -/
  da2dEncode : List Bytes → Option (List Hash × List Hash)
  /-- Samples verified when the node of the given id samples a block, if enough were. -/
  daSampling : ℕ → Block → Option ℕ
  /-- `sanovSlash stake observed honest`: slash by the large-deviation rate. -/
  sanovSlash : ℕ → List ℕ → List ℕ → Option ℕ

/-! ### Block hash -/

/-- The bytes hashed for a block. -/
def blockHashInput (block : Block) : Bytes :=
  leBytes 8 block.number ++ leBytes 8 block.epoch ++ block.parentHash.toList ++
    block.stateRoot.toList ++ leBytes 8 block.timestamp ++
    tagged (block.producerId.map (leBytes 8)) ++
    tagged (block.vrfOutput.map fun out => lengthPrefixed out.toList) ++
    tagged (block.vrfProof.map lengthPrefixed) ++ tagged (block.dataRoot.map List.Vector.toList) ++
    (block.transactions.map lengthPrefixed).flatten ++
    -- an absent post-state root leaves no trace, not even a tag
    (block.postStateRoot.map fun root => 1 :: root.toList).getD []

def blockHash (env : Env) (block : Block) : Hash := env.blake3 (blockHashInput block)

end EvaporChain
