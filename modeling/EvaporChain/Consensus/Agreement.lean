import EvaporChain.Consensus.Committee

/-!
# Agreement within a height

The honest validators of a committee run the engine on arbitrary inputs, constrained only by ideal
signatures. When no call resets the round counter and nobody precommits a block it does not hold,
their votes for blocks form a lawful log, so all blocks they commit at the height have one hash.
Without the second condition the lock is missing exactly where it is needed.
-/

namespace EvaporChain

open Core TendermintConsensus Network ValidatorSet

/-! ### Executions of a height -/

namespace Committee

variable (C : Committee)

/-- The honest validators have just entered the height and nothing was sent. -/
structure Starts (net : Network) : Prop where
  sent : net.sent = []
  myId : ∀ i ∈ C.honest, (net.nodes i).myId = i
  unmodified : ∀ i ∈ C.honest, (net.nodes i).byzantineDoublePrecommit = false
  set : ∀ i ∈ C.honest, (net.nodes i).validatorSet = C.set
  height : ∀ i ∈ C.honest, (net.nodes i).height = C.height
  chainId : ∀ i ∈ C.honest, (net.nodes i).chainId = C.chainId
  round : ∀ i ∈ C.honest, ∃ now, (net.nodes i).roundState = RoundState.new 0 now
  unlocked : ∀ i ∈ C.honest, (net.nodes i).lockedBlock = none
  proposals : ∀ i ∈ C.honest, ∀ height round, C.height ≤ height →
    (net.nodes i).proposalsSeen.lookup (height, round) = none

/-- Inputs during the height: ticks find the delegations of the set, messages are arbitrary up to
ideal signatures. Applying a block ends the height for a node. -/
def AdmitsInput (env : Env) (sent : List ConsensusMessage) : Event → Prop
  | .tick input => ∀ v ∈ C.set.validators,
      satSum ((input.delegations.filter (·.1 == v.id)).map (·.2)) = v.delegatedStake
  | .message _ msg => msg.round < 2 ^ 32 ∧ C.Unforged env sent msg
  | .committed _ => False

instance (env : Env) (sent : List ConsensusMessage) :
    (e : Event) → Decidable (C.AdmitsInput env sent e)
  | .tick _ => inferInstanceAs (Decidable (∀ v ∈ C.set.validators, _))
  | .message _ _ => inferInstanceAs (Decidable (_ ∧ _))
  | .committed _ => inferInstanceAs (Decidable False)

/-- Calls during the height go to honest validators. -/
def Admits (env : Env) (net : Network) (call : ℕ × Event) : Prop :=
  call.1 ∈ C.honest ∧ C.AdmitsInput env net.sent call.2

instance (env : Env) (net : Network) (call : ℕ × Event) : Decidable (C.Admits env net call) :=
  inferInstanceAs (Decidable (_ ∧ _))

/-- The call leaves the entries of the honest validators as they are. -/
def Fixes (outcome : Outcome) : Prop :=
  ∀ i ∈ C.honest, outcome.node.validatorSet.get i = C.set.get i

instance (outcome : Outcome) : Decidable (C.Fixes outcome) :=
  inferInstanceAs (Decidable (∀ i ∈ C.honest, _))

end Committee

def HoldsPrecommitted (env : Env) (outcome : Outcome) : Prop :=
  ∀ vote ∈ votes env (broadcasts outcome.actions), vote.phase = .precommit → vote.hash ≠ none →
    outcome.node.roundState.proposedBlock.map (blockHash env) = vote.hash

instance (env : Env) (outcome : Outcome) : Decidable (HoldsPrecommitted env outcome) :=
  inferInstanceAs (Decidable (∀ vote ∈ votes env (broadcasts outcome.actions), _))

/-! ### Locks -/

/-- The lock of validator `i` is its latest precommit. -/
structure LockInv (env : Env) (height : ℕ) (sent : List ConsensusMessage) (i : ℕ)
    (c : TendermintConsensus) : Prop where
  held : ∀ round hash, .precommit i round hash ∈ ballots env height sent →
    ∃ block lockRound, c.lockedBlock = some block ∧ c.lockedRound = some lockRound ∧
      (round < lockRound ∨ round = lockRound ∧ hash = blockHash env block)
  cast : ∀ block, c.lockedBlock = some block → ∃ lockRound, c.lockedRound = some lockRound ∧
    .precommit i lockRound (blockHash env block) ∈ ballots env height sent

section Locks

variable {env : Env} {height : ℕ} {sent : List ConsensusMessage} {i : ℕ}
  {c c' : TendermintConsensus} {Quorum : Finset ℕ → Prop}

/-- New messages without precommits of `i` leave the lock right. -/
lemma LockInv.append (h : LockInv env height sent i c) {msgs : List ConsensusMessage}
    (hblock : c'.lockedBlock = c.lockedBlock) (hround : c'.lockedRound = c.lockedRound)
    (hnew : ∀ round hash, .precommit i round hash ∉ ballots env height msgs) :
    LockInv env height (sent ++ msgs) i c' := by
  constructor
  · intro round hash hmem
    rw [ballots_append, List.mem_append] at hmem
    rw [hblock, hround]
    exact h.held round hash (hmem.resolve_left (hnew round hash))
  · intro block hlocked
    obtain ⟨lockRound, hlock, hcast⟩ := h.cast block (hblock ▸ hlocked)
    refine ⟨lockRound, hround.trans hlock, ?_⟩
    rw [ballots_append]
    exact List.mem_append_right _ hcast

end Locks

/-- A move casts at most one ballot, a prevote that respects the lock. -/
lemma Move.ballots_cases {env : Env} {e : Event} {c c' : TendermintConsensus}
    {acts : List ConsensusAction} (h : Move env e c acts c') :
    ballots env c.height (broadcasts acts) = [] ∨
      ∃ hash, ballots env c.height (broadcasts acts) = [.prevote c.myId c.roundState.round hash] ∧
        ∀ block lockRound, c.lockedBlock = some block → c.lockedRound = some lockRound →
          hash = blockHash env block := by
  cases h with
  | say haux => exact .inl (ballots_of_votes_nil (votes_auxiliary env haux))
  | dropProposed | registerKey | storeAttestation | skip | recordProposal | adoptBlock
  | recordPrevote | recordPrecommit => exact .inl rfl
  | @propose input =>
    refine .inr ⟨blockHash env (c.createProposal env input), ?_, ?_⟩
    · simp [ballots, votes_propose, ownVote, Vote.ballot]
    · intro block lockRound hblock _
      simp [createProposal, hblock]
  | @proposeTimedOut now =>
    rw [ballots, votes_proposeTimedOut]
    split_ifs <;> simp [ownVote, Vote.ballot]
  | @prevoteTimedOut now =>
    rw [ballots, votes_prevoteTimedOut]
    split_ifs <;> simp [ownVote, Vote.ballot]
  | @voteOnProposal block now =>
    cases hvote : c.voteHash env (blockHash env block) with
    | none => exact .inl (by simp [ballots, votes_voteOnProposal, hvote, ownVote, Vote.ballot])
    | some hash =>
      refine .inr ⟨hash, by simp [ballots, votes_voteOnProposal, hvote, ownVote, Vote.ballot], ?_⟩
      intro locked lockRound hlocked hround
      simp only [voteHash, hlocked, hround] at hvote
      split_ifs at hvote with heq
      rw [heq]
      exact (Option.some.inj hvote).symm

/-! ### The invariant -/

/-- What holds of the node of an honest validator during the height. -/
structure Committee.MemberInv (C : Committee) (env : Env) (sent : List ConsensusMessage) (i : ℕ)
    (c : TendermintConsensus) : Prop where
  sees : C.Sees c.validatorSet
  height : c.height = C.height
  chainId : c.chainId = C.chainId
  round_lt : c.roundState.round < 2 ^ 32
  lock : LockInv env C.height sent i c

/-- The votes of the honest validators are for the height, and form a lawful log. -/
structure Committee.Inv (C : Committee) (env : Env) (net : Network) : Prop where
  network : NetInv env C.honest net
  member : ∀ i ∈ C.honest, C.MemberInv env net.sent i (net.nodes i)
  cast : ∀ vote ∈ votes env net.sent, vote.voter ∈ C.honest ∧ vote.height = C.height
  lawful : Lawful C.Quorum (ballots env C.height net.sent)

namespace Committee

section Steps

variable {C : Committee} {env : Env} {net : Network} {i : ℕ} {c c' : TendermintConsensus}
  {acts : List ConsensusAction} {e : Event}

lemma inv_of_starts (env : Env) (h : C.Starts net) : C.Inv env net := by
  constructor
  · refine ⟨fun i hi => ?_, by simp [VotesUnique, h.sent]⟩
    obtain ⟨now, hround⟩ := h.round i hi
    rw [h.sent]
    apply NodeInv.of_new (h.myId i hi) (h.unmodified i hi) hround
    rw [h.height i hi]
    exact h.proposals i hi
  · intro i hi
    obtain ⟨now, hround⟩ := h.round i hi
    refine ⟨⟨?_, ?_⟩, h.height i hi, h.chainId i hi, ?_, ⟨?_, ?_⟩⟩
    · rw [h.set i hi]
      exact .refl C.set
    · intro j _
      rw [h.set i hi]
    · simp [hround, RoundState.new]
    · simp [h.sent, ballots]
    · simp [h.unlocked i hi]
  · simp [h.sent]
  · simp [h.sent, ballots, Lawful]

section

variable (h : C.Inv env net)

include h

/-- Node `i` takes a step: what is to be shown is about this node and its new ballots. -/
lemma Inv.put (hi : i ∈ C.honest) (hnet : NetInv env C.honest (net.put i c' acts))
    (hslot : ∀ vote ∈ votes env (broadcasts acts), vote.voter = i ∧ vote.height = C.height)
    (hmember : C.MemberInv env (net.sent ++ broadcasts acts) i c')
    (hlawful : Lawful C.Quorum (ballots env C.height (net.sent ++ broadcasts acts))) :
    C.Inv env (net.put i c' acts) := by
  refine ⟨hnet, fun j hj => ?_, fun vote hvote => ?_, hlawful⟩
  · by_cases hji : j = i
    · subst hji
      rw [put_nodes_self]
      exact hmember
    · rw [put_nodes_of_ne _ hji]
      obtain ⟨hsees, hheight, hchain, hround, hlock⟩ := h.member j hj
      refine ⟨hsees, hheight, hchain, hround, hlock.append rfl rfl fun round hash hmem => ?_⟩
      exact hji (hslot _ (mem_ballots_precommit.mp hmem)).1
  · rw [put_sent, votes_append, List.mem_append] at hvote
    rcases hvote with hvote | hvote
    · exact h.cast vote hvote
    · obtain ⟨hvoter, hheight⟩ := hslot vote hvote
      exact ⟨hvoter ▸ hi, hheight⟩

variable (hi : i ∈ C.honest) (hc : net.nodes i = c)

include hi hc

/-- A step without votes that keeps the lock. -/
lemma Inv.put_quiet (hnet : NetInv env C.honest (net.put i c' acts))
    (hquiet : votes env (broadcasts acts) = [])
    (hsees : C.Sees c'.validatorSet) (hheight : c'.height = c.height)
    (hchain : c'.chainId = c.chainId) (hround : c'.roundState.round < 2 ^ 32)
    (hblock : c'.lockedBlock = c.lockedBlock) (hlockRound : c'.lockedRound = c.lockedRound) :
    C.Inv env (net.put i c' acts) := by
  have hmember := h.member i hi
  rw [hc] at hmember
  have hballots : ballots env C.height (broadcasts acts) = [] := ballots_of_votes_nil hquiet
  apply h.put hi hnet
  · simp [hquiet]
  · refine ⟨hsees, hheight.trans hmember.height, hchain.trans hmember.chainId, hround, ?_⟩
    exact hmember.lock.append hblock hlockRound (by simp [hballots])
  · rw [ballots_append, hballots]
    exact h.lawful

/-- Precommits of an honest validator are of rounds up to its present one. -/
lemma Inv.round_le {vote : Vote} (hvote : vote ∈ votes env net.sent) (hvoter : vote.voter = i) :
    vote.round ≤ c.roundState.round := by
  subst hc
  have hpast := (h.network.node i hi).past vote hvote hvoter
  have hheight := (h.cast vote hvote).2
  have hmember := (h.member i hi).height
  omega

lemma Inv.put_move (hgen : Genuine env C.honest net.sent c e) (hkey : ¬ e.IsKeyAnnounce)
    (hrounds : ∀ input msg, e = .message input msg → msg.round < 2 ^ 32)
    (hmove : Move env e c acts c') : C.Inv env (net.put i c' acts) := by
  have hnode := h.network.node i hi
  have hmember := h.member i hi
  have hround_le {vote : Vote} (hvote : vote ∈ votes env net.sent) (hvoter : vote.voter = i) :=
    h.round_le hi hc hvote hvoter
  rw [hc] at hnode hmember
  have hsame := hmove.sameNode
  have hcast := hmove.castSpec hnode.phase
  have hballots := hmove.ballots_cases
  rw [hmember.height, hnode.myId] at hballots
  apply h.put hi (h.network.put_move hi hc hgen hmove)
  · intro vote hvote
    obtain ⟨hheight, -, hvoter⟩ := hcast.slot vote hvote
    exact ⟨hvoter.trans hnode.myId, hheight.trans hmember.height⟩
  · refine ⟨?_, hsame.height.trans hmember.height, hsame.chainId.trans hmember.chainId, ?_, ?_⟩
    · rw [hmove.validatorSet_eq hkey]
      exact hmember.sees
    · rcases hmove.slot with ⟨hround, -⟩ | ⟨-, input, msg, he, -, rfl⟩
      · rw [hround]
        exact hmember.round_lt
      · exact hrounds input msg he
    · obtain ⟨hblock, hlockRound⟩ := hmove.lock_eq
      refine hmember.lock.append hblock hlockRound fun round hash hmem => ?_
      rcases hballots with hnil | ⟨hash', hone, -⟩
      · simp [hnil] at hmem
      · simp [hone] at hmem
  · rw [ballots_append]
    rcases hballots with hnil | ⟨hash, hone, hlock⟩
    · rw [hnil]
      exact h.lawful
    · rw [hone]
      refine ⟨fun round' hash' hmem hlt hne => ?_, h.lawful⟩
      obtain ⟨block, lockRound, hblock, hround, hcase⟩ := hmember.lock.held round' hash' hmem
      have hhash := hlock block lockRound hblock hround
      rcases hcase with hlater | ⟨-, hsame⟩
      · -- the lock was taken after the precommit, by a precommit for the block now prevoted
        obtain ⟨lockRound', hround', hcast⟩ := hmember.lock.cast block hblock
        obtain rfl : lockRound' = lockRound := Option.some.inj (hround'.symm.trans hround)
        exact ⟨lockRound', hlater, hround_le (mem_ballots_precommit.mp hcast) rfl, hhash ▸ hcast⟩
      · exact absurd (hsame.trans hhash.symm) hne

lemma Inv.put_moves (hgen : Genuine env C.honest net.sent c e) (hkey : ¬ e.IsKeyAnnounce)
    (hrounds : ∀ input msg, e = .message input msg → msg.round < 2 ^ 32)
    (hmoves : Moves env e c acts c') : C.Inv env (net.put i c' acts) := by
  induction hmoves generalizing net with
  | refl c =>
    have hput : net.put i c [] = net := by
      simp [Network.put, ← hc]
    rw [hput]
    exact h
  | @step c c₁ c₂ a₁ a₂ move moves ih =>
    have hstep := h.put_move hi hc hgen hkey hrounds move
    have hgen' := (hgen.of_move move).mono (broadcasts a₁)
    simpa using ih hstep (put_nodes_self _ _ _ _) hgen'

/-- A precommit for the proposed block is castable, and the lock follows it. -/
lemma Inv.put_precommitBlock {block : Block} {now : ℕ}
    (hquorum : c.checkPrevoteQuorum = some (some (blockHash env block)))
    (hblock : c.roundState.proposedBlock = some block) (hnew : ¬ c.roundState.precommitted = true) :
    C.Inv env (net.put i (c.precommitOnQuorum env (some (blockHash env block)) now).1
      (c.precommitOnQuorum env (some (blockHash env block)) now).2) := by
  have hnode := h.network.node i hi
  have hmember := h.member i hi
  have hold {round : ℕ} {hash : Hash}
      (hmem : .precommit i round hash ∈ ballots env C.height net.sent) :
      round < c.roundState.round := by
    have hvote := mem_ballots_precommit.mp hmem
    have hpresent := hnode.present _ hvote rfl hmember.height.symm
    rw [hc] at hpresent
    exact lt_of_le_of_ne (h.round_le hi hc hvote rfl) fun heq => hnew (hpresent heq)
  have hround_le {vote : Vote} (hvote : vote ∈ votes env net.sent) (hvoter : vote.voter = i) :=
    h.round_le hi hc hvote hvoter
  rw [hc] at hnode hmember
  have hpolka : HasPolka C.Quorum (ballots env C.height net.sent) c.roundState.round
      (blockHash env block) := by
    obtain ⟨S, hS, hvotes⟩ := hmember.sees.exists_quorum hquorum
    refine ⟨S, hS, fun j hj => mem_ballots_prevote.mpr ?_⟩
    rw [← hmember.height]
    exact hnode.tables.prevotes j (hS.1 hj) _ (hvotes j hj)
  have hvotes := votes_precommitOnQuorum env (some (blockHash env block)) now hnode.honest
  rw [if_neg hnew] at hvotes
  have hballots : ballots env C.height
      (broadcasts (c.precommitOnQuorum env (some (blockHash env block)) now).2) =
      [.precommit i c.roundState.round (blockHash env block)] := by
    simp [ballots, hvotes, ownVote, Vote.ballot, hmember.height, hnode.myId]
  have hlock : c.lockOn env (some (blockHash env block)) =
      { c with lockedBlock := some block, lockedRound := some c.roundState.round } := by
    simp [lockOn, hblock]
  have hafter : (c.precommitOnQuorum env (some (blockHash env block)) now).1 =
      (({ c with lockedBlock := some block, lockedRound := some c.roundState.round } :
        TendermintConsensus).castPrecommit env (some (blockHash env block))).enterPhase
          .precommit now := by
    rw [precommitOnQuorum, if_neg hnew, hlock]
  apply h.put hi (h.network.put_precommit hi hc _ now)
  · rw [hvotes]
    simp [ownVote, hmember.height, hnode.myId]
  · rw [hafter]
    refine ⟨hmember.sees, hmember.height, hmember.chainId, hmember.round_lt, ?_, ?_⟩
    · intro round hash hmem
      rw [ballots_append, hballots] at hmem
      refine ⟨block, c.roundState.round, rfl, rfl, ?_⟩
      rcases List.mem_cons.mp hmem with hmem | hmem
      · obtain ⟨-, rfl, rfl⟩ := Ballot.precommit.inj hmem
        exact .inr ⟨rfl, rfl⟩
      · exact .inl (hold hmem)
    · intro block' hblock'
      obtain rfl : block = block' := Option.some.inj hblock'
      refine ⟨c.roundState.round, rfl, ?_⟩
      rw [ballots_append, hballots]
      exact .head _
  · rw [ballots_append, hballots]
    refine ⟨⟨hpolka, fun round' hash' hmem => ?_, fun hash' hmem => ?_⟩, h.lawful⟩
    · exact hround_le (mem_ballots_prevote.mp hmem) rfl
    · exact absurd (hold hmem) (lt_irrefl _)

lemma Inv.put_precommit {hash : Option Hash} {now : ℕ} (hquorum : c.checkPrevoteQuorum = some hash)
    (hheld : HoldsPrecommitted env ⟨(c.precommitOnQuorum env hash now).1,
      (c.precommitOnQuorum env hash now).2, []⟩) :
    C.Inv env (net.put i (c.precommitOnQuorum env hash now).1
      (c.precommitOnQuorum env hash now).2) := by
  have hnode := h.network.node i hi
  have hmember := h.member i hi
  rw [hc] at hnode hmember
  have hnet := h.network.put_precommit hi hc hash now
  have hvotes := votes_precommitOnQuorum env hash now hnode.honest
  by_cases hdone : c.roundState.precommitted = true
  · have hafter : (c.precommitOnQuorum env hash now).1 = c.enterPhase .precommit now := by
      rw [precommitOnQuorum, if_pos hdone]
    rw [if_pos hdone] at hvotes
    apply h.put_quiet hi hc hnet hvotes
    all_goals rw [hafter]
    · exact hmember.sees
    · rfl
    · rfl
    · exact hmember.round_lt
    · rfl
    · rfl
  · rw [if_neg hdone] at hvotes
    cases hash with
    | none =>
      have hafter : (c.precommitOnQuorum env none now).1 =
          (c.castPrecommit env none).enterPhase .precommit now := by
        rw [precommitOnQuorum, if_neg hdone]
        rfl
      have hballots :
          ballots env C.height (broadcasts (c.precommitOnQuorum env none now).2) = [] := by
        simp [ballots, hvotes, ownVote, Vote.ballot]
      apply h.put hi hnet
      · rw [hvotes]
        simp [ownVote, hmember.height, hnode.myId]
      · rw [hafter]
        refine ⟨hmember.sees, hmember.height, hmember.chainId, hmember.round_lt, ?_⟩
        exact hmember.lock.append rfl rfl (by simp [hballots])
      · rw [ballots_append, hballots]
        exact h.lawful
    | some x =>
      have hproposed : (c.precommitOnQuorum env (some x) now).1.roundState.proposedBlock =
          c.roundState.proposedBlock := by
        obtain ⟨block, round, hlock⟩ := c.lockOn_eq env (some x)
        rw [precommitOnQuorum, if_neg hdone, hlock]
        rfl
      have hmap := hheld (c.ownVote .precommit (some x)) (by simp [hvotes]) rfl (by simp [ownVote])
      rw [hproposed] at hmap
      obtain ⟨block, hblock, rfl⟩ := Option.map_eq_some_iff.mp hmap
      exact h.put_precommitBlock hi hc hquorum hblock hdone

omit hi hc

/-- Refreshing the delegated stakes changes nothing during the height. -/
lemma Inv.opened_eq (hadm : C.Admits env net (i, e)) : (net.nodes i).opened e = net.nodes i := by
  cases e with
  | message | committed => rfl
  | tick input =>
    obtain ⟨hi, hdel⟩ := hadm
    have hset : (net.nodes i).validatorSet.refreshDelegatedStakes input.delegations =
        (net.nodes i).validatorSet := by
      apply refreshDelegatedStakes_eq_self
      intro id v hv
      obtain ⟨v₀, hv₀, -, heq, -⟩ := (h.member i hi).sees.slashed.get id v hv
      have hid : v.id = v₀.id := (id_of_get hv).trans (id_of_get hv₀).symm
      rw [heq, hid]
      exact hdel v₀ (List.mem_of_find?_eq_some hv₀)
    rw [opened, hset]

/-- With ideal signatures, accepted votes of honest validators were cast. -/
lemma Inv.genuine (hadm : C.Admits env net (i, e)) :
    Genuine env C.honest net.sent (net.nodes i) e := by
  rintro input msg vote rfl hvote hheight hvoter haccepts
  obtain ⟨hi, hround, hunforged⟩ := hadm
  have hmember := h.member i hi
  obtain ⟨v, pk, hv, hpk, -⟩ := exists_get hvoter
  have hget : (net.nodes i).validatorSet.get vote.voter = some v :=
    (hmember.sees.honest _ hvoter).trans hv
  obtain ⟨sig, hsig, hverify⟩ := exists_signature_of_accepts haccepts hvote hheight hget hpk
  rw [hmember.chainId] at hverify
  have hslot : vote.height = msg.height ∧ vote.round = msg.round := by
    cases msg <;> cases hvote <;> exact ⟨rfl, rfl⟩
  have hvheight := hslot.1.trans (hheight.trans hmember.height)
  have hkey : C.set.currentKey vote.voter = some pk := by
    rw [ValidatorSet.currentKey, hv]
    exact hpk
  apply mem_votes_of_signed hvheight (hslot.2 ▸ hround)
  · intro w hw
    obtain ⟨hhonest, hwheight⟩ := h.cast w hw
    exact ⟨hwheight, lt_of_le_of_lt (h.round_le hhonest rfl hw rfl) (h.member _ hhonest).round_lt⟩
  · exact hunforged vote hvote hvoter hvheight sig hsig pk hkey hverify

end

lemma nextRound_lt (c : TendermintConsensus) : c.nextRound < 2 ^ 32 := by
  rw [nextRound]
  split_ifs
  · omega
  · exact Nat.mod_lt _ (by omega)

variable (h : C.Inv env net)

include h

/-- Advancing the round keeps the invariant when it leaves the honest entries alone. -/
lemma Inv.put_advance (hi : i ∈ C.honest) (hc : net.nodes i = c) {now : ℕ}
    (hnet : NetInv env C.honest (net.put i (c.advanceRound env now) []))
    (hfix : ∀ j ∈ C.honest, (c.advanceRound env now).validatorSet.get j = C.set.get j) :
    C.Inv env (net.put i (c.advanceRound env now) []) := by
  have hsees := (h.member i hi).sees
  rw [hc] at hsees
  obtain ⟨vs, missedProposals, missedVotes, heq, hslash⟩ := c.advanceRound_eq env now
  rw [heq] at hnet hfix ⊢
  exact h.put_quiet hi hc hnet rfl ⟨hsees.slashed.trans hslash, hfix⟩ rfl rfl
    (nextRound_lt c) rfl rfl

lemma Inv.put_commit (hi : i ∈ C.honest) (hc : net.nodes i = c) (block : Block) :
    C.Inv env (net.put i (c.commitProposed env block (blockHash env block)).1
      [(c.commitProposed env block (blockHash env block)).2]) := by
  have hmember := h.member i hi
  rw [hc] at hmember
  exact h.put_quiet hi hc (h.network.put_commit hi hc block) rfl hmember.sees rfl rfl
    hmember.round_lt rfl rfl

/-- Moves of a call that is not a key announcement. -/
lemma Inv.put_moves_of_admits (hadm : C.Admits env net (i, e)) (hkey : ¬ e.IsKeyAnnounce)
    (moves : Moves env e ((net.nodes i).opened e) acts c') : C.Inv env (net.put i c' acts) := by
  rw [h.opened_eq hadm] at moves
  refine h.put_moves hadm.1 rfl (h.genuine hadm) hkey (fun input msg he => ?_) moves
  subst he
  exact hadm.2.1

/-- A key announcement changes at most the key of a validator that is not honest. -/
lemma Inv.step_keyAnnounce (hi : i ∈ C.honest) {vid : ℕ} {pk pop sig : Bytes}
    (hnet : NetInv env C.honest (net.put i ((net.nodes i).onKeyAnnounce env vid pk pop sig) []))
    (hfix : ∀ j ∈ C.honest,
      ((net.nodes i).onKeyAnnounce env vid pk pop sig).validatorSet.get j = C.set.get j) :
    C.Inv env (net.put i ((net.nodes i).onKeyAnnounce env vid pk pop sig) []) := by
  have hmember := h.member i hi
  have hslash : C.set.SlashedTo ((net.nodes i).onKeyAnnounce env vid pk pop sig).validatorSet := by
    rw [onKeyAnnounce]
    split_ifs
    · refine hmember.sees.slashed.trans (slashedTo_modify _ vid ?_ ?_ ?_ ?_)
      · exact fun _ => rfl
      · exact fun _ => le_rfl
      · exact fun _ => rfl
      · exact fun _ _ => rfl
    · exact hmember.sees.slashed
  refine h.put_quiet hi rfl hnet rfl ⟨hslash, hfix⟩ ?_ ?_ ?_ ?_ ?_
  all_goals
    rw [onKeyAnnounce]
    split_ifs
  all_goals first | exact hmember.round_lt | rfl

/-- A call during the height keeps the invariant. -/
theorem Inv.step (hadm : C.Admits env net (i, e)) (hfix : C.Fixes (net.outcome env (i, e)))
    (hkeep : KeepsRound (net.nodes i) (net.outcome env (i, e)))
    (hheld : HoldsPrecommitted env (net.outcome env (i, e))) : C.Inv env (net.step env (i, e)) := by
  have hi := hadm.1
  have hgen : Genuine env C.honest net.sent ((net.nodes i).opened e) e := by
    rw [h.opened_eq hadm]
    exact h.genuine hadm
  have hnet := (h.network.step hi hgen hkeep).1
  by_cases hkey : e.IsKeyAnnounce
  · obtain ⟨input, vid, pk, pop, sig, rfl⟩ := hkey
    exact h.step_keyAnnounce hi hnet hfix
  · have hspec := (net.nodes i).handle_spec env e
    have hself {acts : List ConsensusAction} {c' : TendermintConsensus} :
        (net.put i c' acts).nodes i = c' := put_nodes_self _ _ _ _
    simp only [Network.step, Network.outcome] at hnet hfix hheld ⊢
    generalize (net.nodes i).handle env e = outcome at hspec hnet hfix hheld ⊢
    cases hspec with
    | stay moves => exact h.put_moves_of_admits hadm hkey moves
    | @precommit acts c' hash now moves hphase hquorum =>
      have hmoves := h.put_moves_of_admits hadm hkey moves
      have hheld' : HoldsPrecommitted env ⟨(c'.precommitOnQuorum env hash now).1,
          (c'.precommitOnQuorum env hash now).2, []⟩ := by
        intro vote hvote
        apply hheld vote
        rw [broadcasts_append, votes_append]
        exact List.mem_append_right _ hvote
      simpa using hmoves.put_precommit hi hself hquorum hheld'
    | @commit acts c' block moves =>
      simpa using (h.put_moves_of_admits hadm hkey moves).put_commit hi hself block
    | @commitAdvance acts c' block now moves =>
      have hcommit := (h.put_moves_of_admits hadm hkey moves).put_commit hi hself block
      rw [put_put] at hcommit
      simpa using hcommit.put_advance hi hself (by simpa using hnet) hfix
    | @advance acts c' now moves =>
      have hmoves := h.put_moves_of_admits hadm hkey moves
      simpa using hmoves.put_advance hi hself (by simpa using hnet) hfix
    | @slash acts c' vid moves hconflict hacts =>
      have hmoves := h.put_moves_of_admits hadm hkey moves
      have hmember := hmoves.member i hi
      rw [hself] at hmember
      obtain ⟨vs, heq, hslash, -⟩ := c'.sanovSlashEquivocation_eq env vid sanovEquivocationWindow
      rw [heq] at hnet hfix ⊢
      have hput : C.Inv env ((net.put i c' []).put i { c' with validatorSet := vs } acts) := by
        refine hmoves.put_quiet hi hself (by simpa using hnet) (votes_slashes env hacts) ?_ rfl rfl
          hmember.round_lt rfl rfl
        exact ⟨hmember.sees.slashed.trans hslash, hfix⟩
      simpa using hput
    | committed he =>
      subst he
      exact hadm.2.elim

/-- A commit during the height rests on a decision of the honest validators. -/
theorem Inv.decides_of_commit (hadm : C.Admits env net (i, e)) {block : Block}
    (hmem : .commitBlock block ∈ (net.outcome env (i, e)).actions) :
    ∃ round, Decides C.Quorum (ballots env C.height (net.step env (i, e)).sent) round
      (blockHash env block) := by
  have hkey : ¬ e.IsKeyAnnounce := by
    rintro ⟨input, vid, pk, pop, sig, rfl⟩
    simp [Network.outcome, handle, onMessage] at hmem
  obtain ⟨acts, c', block', moves, hcan, hblock, hacts, -⟩ := exists_canCommit_of_mem hmem
  have hmoves := h.put_moves_of_admits hadm hkey moves
  have hdecides : Decides C.Quorum (ballots env C.height (net.put i c' acts).sent)
      c'.roundState.round (blockHash env block') := by
    have htables := (hmoves.network.node i hadm.1).tables
    have hmember := hmoves.member i hadm.1
    rw [put_nodes_self] at htables hmember
    obtain ⟨S, hS, hvotes⟩ := hmember.sees.exists_quorum hcan.quorum
    refine ⟨S, hS, fun j hj => mem_ballots_precommit.mpr ?_⟩
    rw [← hmember.height]
    exact htables.precommits j (hS.1 hj) _ (hvotes j hj)
  have hhash : blockHash env block = blockHash env block' := by
    simp only [commitProposed, ConsensusAction.commitBlock.injEq] at hblock
    rw [hblock]
    rfl
  refine ⟨c'.roundState.round, hhash ▸ hdecides.mono ?_⟩
  have hsent : (net.step env (i, e)).sent =
      (net.put i c' acts).sent ++ broadcasts [.commitBlock block] := by
    have hactions := hacts
    simp [Network.step, hactions]
  rw [hsent, ballots_append env C.height (net.put i c' acts).sent]
  exact List.subset_append_right _ _

end Steps

end Committee

/-- Agreement: in every execution of a height, with arbitrary loss, delay, duplication and
reordering of messages, arbitrary timer firings and arbitrary messages of the other validators, in
which no call takes an honest node back to an earlier round and no honest node precommits a block
it does not hold, all blocks committed by honest nodes have one hash. -/
theorem honest_commits_agree (C : Committee) (env : Env) (net : Network) (hstart : C.Starts net)
    (calls : List (ℕ × Event))
    (hadmitted : ∀ x ∈ trace (Network.step env) net calls, C.Admits env x.1 x.2)
    (hfix : ∀ x ∈ trace (Network.step env) net calls, C.Fixes (x.1.outcome env x.2))
    (hkeep : ∀ x ∈ trace (Network.step env) net calls,
      KeepsRound (x.1.nodes x.2.1) (x.1.outcome env x.2))
    (hheld : ∀ x ∈ trace (Network.step env) net calls,
      HoldsPrecommitted env (x.1.outcome env x.2)) :
    ∀ x ∈ trace (Network.step env) net calls, ∀ y ∈ trace (Network.step env) net calls,
      ∀ b b', .commitBlock b ∈ (x.1.outcome env x.2).actions →
        .commitBlock b' ∈ (y.1.outcome env y.2).actions → blockHash env b = blockHash env b' := by
  have hrun := run_induction (Network.step env)
    (P := fun net h => C.Inv env net ∧ ∀ x ∈ h, ∀ b,
      .commitBlock b ∈ (x.1.outcome env x.2).actions →
      ∃ round, Decides C.Quorum (ballots env C.height net.sent) round (blockHash env b))
    (G := fun net call => C.Admits env net call ∧ C.Fixes (net.outcome env call) ∧
      KeepsRound (net.nodes call.1) (net.outcome env call) ∧
      HoldsPrecommitted env (net.outcome env call))
    ⟨Committee.inv_of_starts env hstart, by simp⟩ ?_ calls
    fun x hx => ⟨hadmitted x hx, hfix x hx, hkeep x hx, hheld x hx⟩
  · intro x hx y hy b b' hb hb'
    obtain ⟨round, hdecides⟩ := hrun.2 x hx b hb
    obtain ⟨round', hdecides'⟩ := hrun.2 y hy b' hb'
    exact hrun.1.lawful.decides_unique C.quorum_inter hdecides hdecides'
  · rintro net h ⟨i, e⟩ ⟨hinv, hpast⟩ ⟨hadm, hfixes, hround, hholds⟩
    refine ⟨hinv.step hadm hfixes hround hholds, fun x hx b hb => ?_⟩
    rcases List.mem_append.mp hx with hx | hx
    · obtain ⟨round, hdecides⟩ := hpast x hx b hb
      refine ⟨round, hdecides.mono ?_⟩
      rw [Network.step, put_sent, ballots_append]
      exact List.subset_append_right _ _
    · obtain rfl : x = (net, (i, e)) := List.mem_singleton.mp hx
      exact hinv.decides_of_commit hadm hb

/-! ### Precommits without the block -/

/-- Validators 1, 2 and 3 of `fourKeyed` are honest, the leader 4 is not. -/
def fourCommittee : Committee where
  set := fourKeyed
  honest := {1, 2, 3}
  height := 1
  chainId := ChainId.empty
  nodup := by decide
  keyed := by decide
  free := by decide
  known := by decide
  majority := by decide
  fits := by decide

lemma fourCommittee_starts : fourCommittee.Starts fourNetwork where
  sent := rfl
  myId _ _ := rfl
  unmodified _ _ := rfl
  set _ _ := rfl
  height _ _ := rfl
  chainId _ _ := rfl
  round _ _ := ⟨0, rfl⟩
  unlocked _ _ := rfl
  proposals _ _ _ _ _ := rfl

/-- The block validator 4 creates at a clock reading, whose last byte the hash repeats. -/
def blockAt (secs : ℕ) : Block := (fourNode 4).createProposal transparentEnv (tickAt 0 secs)

def hashAt (secs : ℕ) : Hash := blockHash transparentEnv (blockAt secs)

def signedProposal (round secs : ℕ) : ConsensusMessage :=
  .proposal 1 round (blockAt secs) 4
    (some (4 :: blsVoteMessage ChainId.empty 1 round (some (hashAt secs)) .proposal))

/-- A message reaches the node of a validator. -/
def deliver (vid : ℕ) (msg : ConsensusMessage) : ℕ × Event := (vid, .message (callAt 0) msg)

/-- The prevote of `sender` for a block reaches `vid`. -/
def prevote (sender vid round secs : ℕ) : ℕ × Event :=
  deliver vid (signedPrevote sender round (some (hashAt secs)))

def precommit (sender vid round secs : ℕ) : ℕ × Event :=
  deliver vid (signedPrecommit sender round (some (hashAt secs)))

/-- Round 0: validators 1 and 2 get a block, 3 does not and times out. The prevotes of 1, 2 and 4
make 3 precommit the block without holding it; 1 commits. Round 1: validators 2 and 3, neither of
them locked, get another block, and with the votes of 4 they commit it. -/
def splitCalls : List (ℕ × Event) :=
  [deliver 1 (signedProposal 0 1), deliver 2 (signedProposal 0 1), (3, .tick (tickAt 100000 0)),
    prevote 1 3 0 1, prevote 2 3 0 1, prevote 4 3 0 1, prevote 2 1 0 1, prevote 4 1 0 1,
    precommit 3 1 0 1, precommit 4 1 0 1,
    deliver 2 (signedProposal 1 2), deliver 3 (signedProposal 1 2),
    prevote 3 2 1 2, prevote 4 2 1 2, prevote 2 3 1 2, prevote 4 3 1 2,
    precommit 3 2 1 2, precommit 4 2 1 2]

def committedBlocks (acts : List ConsensusAction) : List Block :=
  acts.filterMap fun act =>
    match act with
    | .commitBlock block => some block
    | _ => none

lemma commitBlock_mem_of_mem_committedBlocks {acts : List ConsensusAction} {block : Block}
    (h : block ∈ committedBlocks acts) : .commitBlock block ∈ acts := by
  obtain ⟨act, hmem, hact⟩ := List.mem_filterMap.mp h
  cases act <;> cases hact
  exact hmem

/-- Two honest validators commit different blocks at height 1, without any round reset. -/
theorem honest_commits_split :
    fourCommittee.Starts fourNetwork ∧
    (∀ x ∈ trace (Network.step transparentEnv) fourNetwork splitCalls,
      fourCommittee.Admits transparentEnv x.1 x.2 ∧
        fourCommittee.Fixes (x.1.outcome transparentEnv x.2) ∧
        KeepsRound (x.1.nodes x.2.1) (x.1.outcome transparentEnv x.2)) ∧
    ∃ x ∈ trace (Network.step transparentEnv) fourNetwork splitCalls,
      ∃ y ∈ trace (Network.step transparentEnv) fourNetwork splitCalls, ∃ b b',
        .commitBlock b ∈ (x.1.outcome transparentEnv x.2).actions ∧
        .commitBlock b' ∈ (y.1.outcome transparentEnv y.2).actions ∧
        blockHash transparentEnv b ≠ blockHash transparentEnv b' := by
  have hcommits : ∃ x ∈ trace (Network.step transparentEnv) fourNetwork splitCalls,
      ∃ y ∈ trace (Network.step transparentEnv) fourNetwork splitCalls,
        ∃ b ∈ committedBlocks (x.1.outcome transparentEnv x.2).actions,
        ∃ b' ∈ committedBlocks (y.1.outcome transparentEnv y.2).actions,
          blockHash transparentEnv b ≠ blockHash transparentEnv b' := by decide +kernel
  refine ⟨fourCommittee_starts, by decide +kernel, ?_⟩
  obtain ⟨x, hx, y, hy, b, hb, b', hb', hne⟩ := hcommits
  exact ⟨x, hx, y, hy, b, b', commitBlock_mem_of_mem_committedBlocks hb,
    commitBlock_mem_of_mem_committedBlocks hb', hne⟩

/-- All three honest validators get the block; 1 and 2 collect the votes and commit it. -/
def agreeCalls : List (ℕ × Event) :=
  [deliver 1 (signedProposal 0 1), deliver 2 (signedProposal 0 1), deliver 3 (signedProposal 0 1),
    prevote 2 1 0 1, prevote 3 1 0 1, prevote 1 2 0 1, prevote 3 2 0 1,
    precommit 2 1 0 1, precommit 4 1 0 1, precommit 1 2 0 1, precommit 4 2 0 1]

theorem honest_commits_agree_four :
    ((trace (Network.step transparentEnv) fourNetwork agreeCalls).map fun x =>
      (committedBlocks (x.1.outcome transparentEnv x.2).actions).length).sum = 2 ∧
    ∀ x ∈ trace (Network.step transparentEnv) fourNetwork agreeCalls,
      ∀ y ∈ trace (Network.step transparentEnv) fourNetwork agreeCalls, ∀ b b',
        .commitBlock b ∈ (x.1.outcome transparentEnv x.2).actions →
        .commitBlock b' ∈ (y.1.outcome transparentEnv y.2).actions →
        blockHash transparentEnv b = blockHash transparentEnv b' :=
  ⟨by decide +kernel,
    honest_commits_agree fourCommittee transparentEnv fourNetwork fourCommittee_starts agreeCalls
      (by decide +kernel) (by decide +kernel) (by decide +kernel) (by decide +kernel)⟩

end EvaporChain
