import EvaporChain.Consensus.Finality
import EvaporChain.Consensus.Votes

/-!
# Messages without a valid signature

When every validator has a key, a proposal or vote that is not signed with the key of its sender
is dropped. Two things happen before the signature is looked at: a message for a later round
takes the node there, and a proposal that names the expected proposer has its height observed by
the finality tracker. `undisturbed_onMessage_iff` says that nothing else can change.
-/

namespace EvaporChain

open Core

namespace ValidatorSet

variable {v : ValidatorInfo}

lemma mem_of_pick {index acc : ℕ} {l : List ValidatorInfo}
    (h : leaderForEpoch.pick index acc l = some v) : v ∈ l := by
  induction l generalizing acc with
  | nil => simp [leaderForEpoch.pick] at h
  | cons w l ih =>
    simp only [leaderForEpoch.pick] at h
    split_ifs at h
    · cases h
      exact .head _
    · exact .tail _ (ih h)

/-- The leader is a validator of the set. -/
lemma mem_of_leaderForEpoch {blake3 : Bytes → Hash} {vs : ValidatorSet} {epoch : ℕ}
    (h : vs.leaderForEpoch blake3 epoch = some v) : v ∈ vs.validators := by
  suffices hactive : v ∈ vs.active from List.mem_of_mem_filter hactive
  simp only [leaderForEpoch] at h
  split_ifs at h
  · exact List.mem_of_getElem? h
  · rcases Option.or_eq_some_iff.mp h with hpick | ⟨-, hlast⟩
    · exact mem_of_pick hpick
    · exact List.mem_of_getLast? hlast

/-- In a set where all have keys, a listed id has a registered key. -/
lemma exists_key_of_mem {vs : ValidatorSet} (hkeys : ∀ v ∈ vs.validators, v.blsPublicKey.isSome)
    (hmem : v ∈ vs.validators) : ∃ pk, (vs.get v.id).bind (·.blsPublicKey) = some pk := by
  have hsome : (vs.get v.id).isSome := by
    rw [get, List.find?_isSome]
    exact ⟨v, hmem, by simp⟩
  obtain ⟨w, hw⟩ := Option.isSome_iff_exists.mp hsome
  obtain ⟨pk, hpk⟩ := Option.isSome_iff_exists.mp (hkeys w (List.mem_of_find?_eq_some hw))
  exact ⟨pk, by simp [hw, hpk]⟩

end ValidatorSet

namespace TendermintConsensus

variable {env : Env} {c : TendermintConsensus}

/-- The voter is in the validator set and the signature verifies under its registered key. -/
def Signed (env : Env) (c : TendermintConsensus) (vote : Vote) (sig : Option Bytes) : Prop :=
  ∃ pk s, (c.validatorSet.get vote.voter).bind (·.blsPublicKey) = some pk ∧ sig = some s ∧
    env.bls.verify (blsVoteMessage c.chainId vote.height vote.round vote.hash vote.phase)
      s pk = true

/-! ### Dropping unsigned messages -/

variable {round now height vid : ℕ} {sig : Option Bytes} {hash : Option Hash}

lemma skipTo_of_le (h : round ≤ c.roundState.round) : c.skipTo round now = c :=
  if_neg (by omega)

@[simp] lemma skipTo_validatorSet (round now : ℕ) :
    (c.skipTo round now).validatorSet = c.validatorSet := by
  simp only [skipTo]
  split_ifs <;> rfl

@[simp] lemma skipTo_chainId (round now : ℕ) : (c.skipTo round now).chainId = c.chainId := by
  simp only [skipTo]
  split_ifs <;> rfl

lemma signed_skipTo {vote : Vote} :
    (c.skipTo round now).Signed env vote sig ↔ c.Signed env vote sig := by
  simp [Signed]

/-- A handler that changes nothing leaves the filters alone at work. -/
lemma inSlot_node {handler : TendermintConsensus → Outcome}
    (hidle : height = c.height → (handler (c.skipTo round now)).node = c.skipTo round now) :
    (c.inSlot height round now handler).node =
      if height = c.height then c.skipTo round now else c := by
  rcases lt_trichotomy height c.height with hpast | rfl | hfuture
  · rw [inSlot, if_pos hpast, if_neg hpast.ne]
  · rw [inSlot, if_neg (lt_irrefl _), if_neg (lt_irrefl _), if_pos rfl]
    split_ifs with hround
    · exact (skipTo_of_le hround.le).symm
    · exact hidle rfl
  · rw [inSlot, if_neg hfuture.not_gt, if_pos hfuture, if_neg hfuture.ne']

variable (hkeys : ∀ v ∈ c.validatorSet.validators, v.blsPublicKey.isSome)

include hkeys

/-- The expected proposer has a key, so its unsigned proposal fails the signature check. -/
lemma proposalSigned_of_unsigned
    {block : Block} (hadmissible : c.proposalAdmissible env height round block vid = true)
    (hunsigned : ¬ c.Signed env ⟨.proposal, height, round, some (blockHash env block), vid⟩ sig) :
    c.proposalSigned env height round block vid sig = false := by
  simp only [proposalAdmissible, Bool.and_eq_true, beq_iff_eq, Option.map_eq_some_iff]
    at hadmissible
  obtain ⟨⟨⟨⟨⟨leader, hleader, rfl⟩, -⟩, -⟩, -⟩, -⟩ := hadmissible
  obtain ⟨pk, hpk⟩ :=
    ValidatorSet.exists_key_of_mem hkeys (ValidatorSet.mem_of_leaderForEpoch hleader)
  cases sig with
  | none => simp [proposalSigned, hpk]
  | some s =>
    simp only [proposalSigned, hpk]
    exact Bool.eq_false_iff.mpr fun hverify => hunsigned ⟨pk, s, hpk, rfl, hverify⟩

/-- An unsigned proposal is dropped by the proposer check or by the signature check. -/
lemma onProposal_node_of_unsigned {input : CallInput} {block : Block}
    (hunsigned : ¬ c.Signed env ⟨.proposal, height, round, some (blockHash env block), vid⟩ sig) :
    (c.onProposal env input height round block vid sig).node = c := by
  rw [onProposal]
  by_cases hadmissible : c.proposalAdmissible env height round block vid = true
  · rw [proposalSigned_of_unsigned hkeys hadmissible hunsigned]
    simp only [Bool.not_false, Bool.or_true, if_true]
    split_ifs <;> rfl
  · simp [hadmissible]

lemma voteAuthentic_of_unsigned
    {phase : VotePhase} (hunsigned : ¬ c.Signed env ⟨phase, c.height, round, hash, vid⟩ sig) :
    c.voteAuthentic env round hash vid sig phase = false := by
  rw [Bool.eq_false_iff]
  intro hauthentic
  obtain ⟨v, hv, -, hsigned⟩ := voteAuthentic_iff.mp hauthentic
  obtain ⟨pk, hpk⟩ := Option.isSome_iff_exists.mp (hkeys v (List.mem_of_find?_eq_some hv))
  obtain ⟨s, hs, hverify⟩ := hsigned pk hpk
  exact hunsigned ⟨pk, s, by simp [hv, hpk], hs, hverify⟩

/-- All that an unsigned proposal or vote does to the node is to take it to a later round. -/
lemma onMessage_node_of_unsigned (input : CallInput) {msg : ConsensusMessage} {vote : Vote}
    (hvote : msg.vote env = some vote) (hunsigned : ¬ c.Signed env vote msg.signature) :
    (c.onMessage env input msg).node =
      if msg.height = c.height then c.skipTo msg.round input.now else c := by
  have hkeys' : ∀ round now, ∀ v ∈ (c.skipTo round now).validatorSet.validators,
      v.blsPublicKey.isSome := by
    simpa using hkeys
  cases msg with
  | proposal height round block vid sig =>
    cases hvote
    refine inSlot_node fun _ => onProposal_node_of_unsigned (hkeys' round input.now) ?_
    rwa [signed_skipTo]
  | prevote height round hash vid sig =>
    cases hvote
    refine inSlot_node fun heq => ?_
    rw [onPrevote, voteAuthentic_of_unsigned (hkeys' round input.now),
      if_pos (c := (!false) = true) rfl]
    · split_ifs <;> rfl
    · rwa [signed_skipTo, skipTo_height, ← heq]
  | precommit height round hash vid sig =>
    cases hvote
    refine inSlot_node fun heq => ?_
    rw [onPrecommit, voteAuthentic_of_unsigned (hkeys' round input.now),
      if_pos (c := (!false) = true) rfl]
    · split_ifs <;> rfl
    · rwa [signed_skipTo, skipTo_height, ← heq]
  | keyAnnounce | daAttestation | oracleVote => cases hvote

end TendermintConsensus

namespace TrackedConsensus

/-- Round, lock, timers, seen proposals and finality tracker are the same in two states. -/
structure Undisturbed (c c' : TrackedConsensus) : Prop where
  roundState : c'.roundState = c.roundState
  lockedBlock : c'.lockedBlock = c.lockedBlock
  lockedRound : c'.lockedRound = c.lockedRound
  proposeTimeout : c'.proposeTimeout = c.proposeTimeout
  prevoteTimeout : c'.prevoteTimeout = c.prevoteTimeout
  precommitTimeout : c'.precommitTimeout = c.precommitTimeout
  proposalsSeen : c'.proposalsSeen = c.proposalsSeen
  finalityTracker : c'.finalityTracker = c.finalityTracker

/-- The message is for a later round of the node's height. -/
def IsAhead (c : TrackedConsensus) (msg : ConsensusMessage) : Prop :=
  msg.height = c.height ∧ c.roundState.round < msg.round

/-- When all validators have keys, a proposal or vote whose sender is unknown or did not sign it
leaves round, lock, timers, seen proposals and finality tracker alone exactly when it is not for
a later round and, if it is a proposal in the name of the expected proposer, observing its height
does not change the finality tracker. -/
theorem undisturbed_onMessage_iff (env : Env) (c : TrackedConsensus) (input : CallInput)
    (msg : ConsensusMessage) (vote : Vote)
    (hkeys : ∀ v ∈ c.validatorSet.validators, v.blsPublicKey.isSome)
    (hvote : msg.vote env = some vote) (hunsigned : ¬ c.Signed env vote msg.signature) :
    Undisturbed c (c.onMessage env input msg) ↔ ¬ c.IsAhead msg ∧
      (c.expectsProposal env msg = true → c.finalityTracker.Retains msg.height) := by
  have hnode := TendermintConsensus.onMessage_node_of_unsigned hkeys input hvote hunsigned
  have htracker : (c.onMessage env input msg).finalityTracker = c.finalityTracker ↔
      (c.expectsProposal env msg = true → c.finalityTracker.Retains msg.height) := by
    simp only [onMessage, ← FinalityTracker.observeProposal_eq_self_iff]
    split_ifs with h <;> simp [h]
  by_cases hahead : c.IsAhead msg
  · -- the node has entered the round of the message
    simp only [hahead, not_true_eq_false, false_and, iff_false]
    intro hsame
    have hround := congrArg RoundState.round hsame.roundState
    simp only [onMessage, hnode, if_pos hahead.1] at hround
    rw [TendermintConsensus.skipTo_round _ hahead.2.not_gt] at hround
    exact absurd hround hahead.2.ne'
  · have hsame : (c.onMessage env input msg).toTendermintConsensus = c.toTendermintConsensus := by
      simp only [onMessage, hnode]
      split_ifs with heq
      · exact TendermintConsensus.skipTo_of_le (not_lt.mp fun hlt => hahead ⟨heq, hlt⟩)
      · rfl
    rw [← htracker]
    refine ⟨fun h => ⟨hahead, h.finalityTracker⟩, fun h => ?_⟩
    constructor <;> first | rw [hsame] | exact h.2

/-- Validator 1 of `fourKeyed` at height 1 and round 0. -/
def freshTracked : TrackedConsensus := ⟨fourNode 1, .new⟩

/-- A prevote in the name of a validator that does not exist. -/
def strayPrevote (round : ℕ) : ConsensusMessage := .prevote 1 round none 99 none

/-- An unsigned proposal in the name of validator 4, which leads every round. -/
def forgedProposal : ConsensusMessage :=
  .proposal 1 0 ((fourNode 4).createProposal transparentEnv (tickAt 0 0)) 4 none

lemma not_signed_strayPrevote (round : ℕ) :
    ¬ freshTracked.Signed transparentEnv ⟨.prevote, 1, round, none, 99⟩
      (strayPrevote round).signature := by
  rintro ⟨pk, s, hkey, -⟩
  cases hkey

/-- A prevote of nobody for round 7 takes the node to round 7, and an unsigned proposal makes the
finality tracker observe its height. -/
theorem unsigned_messages_disturb :
    (∀ v ∈ freshTracked.validatorSet.validators, v.blsPublicKey.isSome) ∧
    ¬ freshTracked.Signed transparentEnv ⟨.prevote, 1, 7, none, 99⟩ (strayPrevote 7).signature ∧
    (freshTracked.onMessage transparentEnv (callAt 0) (strayPrevote 7)).roundState.round = 7 ∧
    (∀ vote, ¬ freshTracked.Signed transparentEnv vote forgedProposal.signature) ∧
    freshTracked.finalityTracker.seenProposals = ∅ ∧
    (freshTracked.onMessage transparentEnv (callAt 0)
      forgedProposal).finalityTracker.seenProposals = {1} := by
  refine ⟨by decide, not_signed_strayPrevote 7, by decide +kernel, ?_, rfl, by decide +kernel⟩
  rintro vote ⟨pk, s, -, hsig, -⟩
  cases hsig

/-- A prevote of nobody for the current round is dropped. -/
theorem undisturbed_onMessage_stray :
    freshTracked.roundState.round = 0 ∧
    Undisturbed freshTracked
      (freshTracked.onMessage transparentEnv (callAt 0) (strayPrevote 0)) := by
  refine ⟨rfl, (undisturbed_onMessage_iff transparentEnv freshTracked (callAt 0) (strayPrevote 0)
    ⟨.prevote, 1, 0, none, 99⟩ (by decide) rfl (not_signed_strayPrevote 0)).mpr ⟨?_, ?_⟩⟩
  · rintro ⟨-, hround⟩
    exact absurd hround (by decide)
  · intro hexpected
    cases hexpected

end TrackedConsensus

end EvaporChain
