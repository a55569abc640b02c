import EvaporChain.Consensus.Moves

/-!
# The votes a node casts

A vote is what a signed proposal, prevote or precommit says. Within a round, each move casts at
most one vote per phase, and only in a phase the node has not voted in.
-/

namespace EvaporChain

open Core TendermintConsensus

/-- Content of a proposal, prevote or precommit. A proposal is a vote for its block. -/
structure Vote where
  phase : VotePhase
  height : ℕ
  round : ℕ
  hash : Option Hash
  voter : ℕ
deriving DecidableEq

def ConsensusMessage.vote (env : Env) : ConsensusMessage → Option Vote
  | .proposal height round block voter _ =>
    some ⟨.proposal, height, round, some (blockHash env block), voter⟩
  | .prevote height round hash voter _ => some ⟨.prevote, height, round, hash, voter⟩
  | .precommit height round hash voter _ => some ⟨.precommit, height, round, hash, voter⟩
  | _ => none

def ConsensusMessage.signature : ConsensusMessage → Option Bytes
  | .proposal _ _ _ _ sig => sig
  | .prevote _ _ _ _ sig => sig
  | .precommit _ _ _ _ sig => sig
  | _ => none

def ConsensusAction.broadcast : ConsensusAction → Option ConsensusMessage
  | .broadcastMessage msg => some msg
  | _ => none

def votes (env : Env) (msgs : List ConsensusMessage) : List Vote := msgs.filterMap (·.vote env)

def broadcasts (acts : List ConsensusAction) : List ConsensusMessage :=
  acts.filterMap (·.broadcast)

variable (env : Env)

@[simp] lemma votes_nil : votes env [] = [] := rfl

@[simp] lemma votes_append (ms ms' : List ConsensusMessage) :
    votes env (ms ++ ms') = votes env ms ++ votes env ms' :=
  List.filterMap_append

@[simp] lemma broadcasts_nil : broadcasts [] = [] := rfl

@[simp] lemma broadcasts_append (as as' : List ConsensusAction) :
    broadcasts (as ++ as') = broadcasts as ++ broadcasts as' :=
  List.filterMap_append

variable {acts : List ConsensusAction}

lemma votes_auxiliary (h : ∀ a ∈ acts, a.Auxiliary) : votes env (broadcasts acts) = [] := by
  induction acts with
  | nil => rfl
  | cons a acts ih =>
    have hrest := ih fun b hb => h b (List.mem_cons_of_mem a hb)
    cases h a List.mem_cons_self with
    | requestSync | keyAnnounce | daAttestation => exact hrest

lemma votes_slashes {vid : ℕ}
    (h : ∀ a ∈ acts, ∃ amount, a = .slashValidator vid amount .equivocation) :
    votes env (broadcasts acts) = [] := by
  induction acts with
  | nil => rfl
  | cons a acts ih =>
    obtain ⟨amount, rfl⟩ := h a (.head _)
    exact ih fun b hb => h b (.tail _ hb)

def RoundState.Voted (rs : RoundState) : VotePhase → Prop
  | .proposal => rs.phase ≠ .propose
  | .prevote => rs.prevoted = true
  | .precommit => rs.precommitted = true

/-- What a step of a node in a round may cast. -/
structure CastSpec (env : Env) (c : TendermintConsensus) (acts : List ConsensusAction)
    (c' : TendermintConsensus) : Prop where
  slot : ∀ v ∈ votes env (broadcasts acts),
    v.height = c.height ∧ v.round = c.roundState.round ∧ v.voter = c.myId
  fresh : ∀ v ∈ votes env (broadcasts acts),
    ¬ c.roundState.Voted v.phase ∧ c'.roundState.Voted v.phase
  unique : ∀ v ∈ votes env (broadcasts acts), ∀ w ∈ votes env (broadcasts acts),
    v.phase = w.phase → v.hash = w.hash

lemma CastSpec.of_votes_nil {env : Env} {c c' : TendermintConsensus}
    (h : votes env (broadcasts acts) = []) : CastSpec env c acts c' := by
  constructor <;> simp [h]

/-- A step that casts a single vote. -/
lemma CastSpec.of_votes_singleton {env : Env} {c c' : TendermintConsensus}
    {phase : VotePhase} {hash : Option Hash}
    (h : votes env (broadcasts acts) = [⟨phase, c.height, c.roundState.round, hash, c.myId⟩])
    (hbefore : ¬ c.roundState.Voted phase) (hafter : c'.roundState.Voted phase) :
    CastSpec env c acts c' := by
  constructor
  · simp [h]
  · simp [h, hbefore, hafter]
  · simp [h]

namespace TendermintConsensus

variable {env : Env} {c c' : TendermintConsensus}

lemma votes_attestation (env : Env) (c : TendermintConsensus) (number : ℕ) (root : Hash)
    (samples : ℕ) :
    votes env (broadcasts ((c.makeDaAttestation env number root samples).toList.map
      .broadcastMessage)) = [] := by
  cases hkey : c.blsKeypair <;> simp [makeDaAttestation, broadcasts, votes,
    ConsensusAction.broadcast, ConsensusMessage.vote]

lemma votes_sampling (env : Env) (c : TendermintConsensus) (block : Block) :
    votes env (broadcasts ((c.performDaSampling env block).toList.map .broadcastMessage)) = [] := by
  simp only [performDaSampling]
  split
  · rfl
  · split_ifs
    · exact votes_attestation env c _ _ _
    · rfl
    · split
      · exact votes_attestation env c _ _ _
      · rfl

def ownVote (c : TendermintConsensus) (phase : VotePhase) (hash : Option Hash) : Vote :=
  ⟨phase, c.height, c.roundState.round, hash, c.myId⟩

section

variable (env : Env) (c : TendermintConsensus)

lemma votes_propose (input : TickInput) :
    votes env (broadcasts (c.propose env input).2) =
      [c.ownVote .proposal (some (blockHash env (c.createProposal env input))),
        c.ownVote .prevote (some (blockHash env (c.createProposal env input)))] := by
  have hatt : votes env (broadcasts (((c.createProposal env input).dataRoot.bind fun root =>
      c.makeDaAttestation env (c.createProposal env input).number root 1).toList.map
        .broadcastMessage)) = [] := by
    cases (c.createProposal env input).dataRoot with
    | none => rfl
    | some root => exact votes_attestation env c _ _ _
  simp only [propose, broadcasts_append, votes_append, hatt]
  rfl

lemma votes_proposeTimedOut (now : ℕ) :
    votes env (broadcasts (c.proposeTimedOut env now).2) =
      if !c.draining && !c.roundState.prevoted then [c.ownVote .prevote none] else [] := by
  simp only [proposeTimedOut]
  split_ifs <;> rfl

lemma votes_prevoteTimedOut (now : ℕ) :
    votes env (broadcasts (c.prevoteTimedOut env now).2) =
      if c.roundState.precommitted then [] else [c.ownVote .precommit none] := by
  simp only [prevoteTimedOut]
  split_ifs <;> rfl

lemma votes_voteOnProposal (block : Block) (now : ℕ) :
    votes env (broadcasts (c.voteOnProposal env block now).2) =
      [c.ownVote .prevote (c.voteHash env (blockHash env block))] := by
  have hsampling := votes_sampling env c block
  rw [voteOnProposal, ← List.singleton_append, broadcasts_append, votes_append]
  split_ifs
  · rw [hsampling]
    rfl
  · rfl

lemma votes_precommitOnQuorum {c : TendermintConsensus} (hash : Option Hash) (now : ℕ)
    (hbyz : c.byzantineDoublePrecommit = false) :
    votes env (broadcasts (c.precommitOnQuorum env hash now).2) =
      if c.roundState.precommitted then [] else [c.ownVote .precommit hash] := by
  simp only [precommitOnQuorum]
  split_ifs
  · rfl
  · cases hash <;> simp only [byzantinePrecommit, hbyz] <;> rfl

end

/-! ### Votes are not taken back -/

variable {phase : VotePhase}

lemma voted_castPrevote (hash : Option Hash) (h : c.roundState.Voted phase) :
    (c.castPrevote hash).roundState.Voted phase := by
  cases phase with
  | proposal | precommit => exact h
  | prevote => rfl

lemma voted_castPrecommit (hash : Option Hash)
    (h : c.roundState.Voted phase) : (c.castPrecommit env hash).roundState.Voted phase := by
  cases phase with
  | proposal | prevote => exact h
  | precommit => rfl

lemma voted_enterPhase {next : Phase} (hnext : next ≠ .propose) (now : ℕ)
    (h : c.roundState.Voted phase) : (c.enterPhase next now).roundState.Voted phase := by
  cases phase with
  | proposal => exact hnext
  | prevote | precommit => exact h

/-- In the propose phase, an honest node has not prevoted yet. -/
def PhaseInv (c : TendermintConsensus) : Prop :=
  c.roundState.phase = .propose → c.roundState.prevoted = false

lemma phaseInv_of_phase_ne (h : c.roundState.phase ≠ .propose) : c.PhaseInv := fun hp => absurd hp h

lemma phaseInv_enterRound (c : TendermintConsensus) (round now : ℕ) :
    (c.enterRound round now).PhaseInv := fun _ => rfl

end TendermintConsensus

variable {env : Env} {e : Event} {c c' : TendermintConsensus} {acts : List ConsensusAction}
  (h : Move env e c acts c')

include h

lemma Move.castSpec (hphase : c.PhaseInv) : CastSpec env c acts c' := by
  cases h with
  | say haux => exact .of_votes_nil (votes_auxiliary env haux)
  | dropProposed | registerKey | storeAttestation | skip | recordProposal | adoptBlock
  | recordPrevote | recordPrecommit => exact .of_votes_nil rfl
  | @propose input he hpropose =>
    have hvotes := votes_propose env c input
    constructor
    · simp [hvotes, ownVote]
    · rw [hvotes]
      simp [ownVote, RoundState.Voted, hpropose, hphase hpropose, TendermintConsensus.propose,
        enterPhase, recordDaProposer, castPrevote]
    · simp [hvotes, ownVote]
  | @proposeTimedOut now hpropose =>
    have hvotes := votes_proposeTimedOut env c now
    simp only [TendermintConsensus.proposeTimedOut] at hvotes ⊢
    split_ifs at hvotes ⊢ with hvote
    · refine .of_votes_singleton hvotes ?_ rfl
      simp [RoundState.Voted, hphase hpropose]
    · exact .of_votes_nil hvotes
  | @prevoteTimedOut now =>
    have hvotes := votes_prevoteTimedOut env c now
    simp only [TendermintConsensus.prevoteTimedOut] at hvotes ⊢
    split_ifs at hvotes ⊢ with hvote
    · exact .of_votes_nil hvotes
    · exact .of_votes_singleton hvotes hvote rfl
  | @voteOnProposal block now hblock hvoted =>
    refine .of_votes_singleton (votes_voteOnProposal env c block now) ?_ ?_
    · simp [RoundState.Voted, hvoted]
    · rw [c.voteOnProposal_eq]
      rfl

/-- A move stays in the round and keeps what was voted, or enters the later round of a message. -/
lemma Move.slot :
    (c'.roundState.round = c.roundState.round ∧
      ∀ phase, c.roundState.Voted phase → c'.roundState.Voted phase) ∨
    (acts = [] ∧ ∃ input msg, e = .message input msg ∧ c.roundState.round < msg.round ∧
      c' = c.enterRound msg.round input.now) := by
  cases h with
  | skip he hheight hround => exact .inr ⟨rfl, _, _, he, hround, rfl⟩
  | say | dropProposed | registerKey | storeAttestation | adoptBlock | recordPrevote
  | recordPrecommit => exact .inl ⟨rfl, fun _ hv => hv⟩
  | propose =>
    refine .inl ⟨rfl, fun phase hv => voted_enterPhase (by simp) _ ?_⟩
    exact voted_castPrevote (c := c.adoptBlock _) _ hv
  | proposeTimedOut =>
    simp only [TendermintConsensus.proposeTimedOut]
    split_ifs
    · exact .inl ⟨rfl, fun _ hv => voted_enterPhase (by simp) _ (voted_castPrevote _ hv)⟩
    · exact .inl ⟨rfl, fun _ hv => voted_enterPhase (by simp) _ hv⟩
  | prevoteTimedOut =>
    simp only [TendermintConsensus.prevoteTimedOut]
    split_ifs
    · exact .inl ⟨rfl, fun _ hv => voted_enterPhase (by simp) _ hv⟩
    · exact .inl ⟨rfl, fun _ hv => voted_enterPhase (by simp) _ (voted_castPrecommit _ hv)⟩
  | recordProposal =>
    rw [c.recordProposal_eq]
    exact .inl ⟨rfl, fun _ hv => hv⟩
  | voteOnProposal =>
    rw [c.voteOnProposal_eq]
    exact .inl ⟨rfl, fun _ hv => voted_enterPhase (by simp) _ (voted_castPrevote _ hv)⟩

lemma Move.phaseInv (hc : c.PhaseInv) : c'.PhaseInv := by
  cases h with
  | skip => exact phaseInv_enterRound c _ _
  | say | dropProposed | registerKey | storeAttestation | adoptBlock | recordPrevote
  | recordPrecommit => exact hc
  | propose => exact phaseInv_of_phase_ne (by simp [TendermintConsensus.propose, enterPhase])
  | proposeTimedOut =>
    simp only [TendermintConsensus.proposeTimedOut]
    split_ifs <;> exact phaseInv_of_phase_ne (by simp [enterPhase])
  | prevoteTimedOut =>
    simp only [TendermintConsensus.prevoteTimedOut]
    split_ifs <;> exact phaseInv_of_phase_ne (by simp [enterPhase])
  | recordProposal =>
    rw [c.recordProposal_eq]
    exact hc
  | voteOnProposal =>
    rw [c.voteOnProposal_eq]
    exact phaseInv_of_phase_ne (by simp [enterPhase])

end EvaporChain
