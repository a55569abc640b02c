import EvaporChain.Consensus.Votes
import EvaporChain.Core.Run

/-!
# Networks of nodes

Nodes take calls in any order; what they broadcast is kept. `H` is the set of validators that
run the engine. As long as no call takes a node back to an earlier round, such a validator casts
at most one vote per height, round and phase, and a recorded vote in its name is one it cast.
-/

namespace EvaporChain

open Core TendermintConsensus List

/-- Nodes by validator id, with all messages broadcast so far. -/
structure Network where
  nodes : ℕ → TendermintConsensus
  sent : List ConsensusMessage

namespace Network

def put (net : Network) (i : ℕ) (c : TendermintConsensus) (acts : List ConsensusAction) : Network :=
  ⟨Function.update net.nodes i c, net.sent ++ broadcasts acts⟩

def step (env : Env) (net : Network) (call : ℕ × Event) : Network :=
  let outcome := (net.nodes call.1).handle env call.2
  net.put call.1 outcome.node outcome.actions

def outcome (env : Env) (net : Network) (call : ℕ × Event) : Outcome :=
  (net.nodes call.1).handle env call.2

variable (net : Network)

@[simp] lemma put_nodes_self (i : ℕ) (c : TendermintConsensus)
    (acts : List ConsensusAction) : (net.put i c acts).nodes i = c := by
  simp [put]

lemma put_nodes_of_ne {i j : ℕ} (h : j ≠ i) (c : TendermintConsensus)
    (acts : List ConsensusAction) : (net.put i c acts).nodes j = net.nodes j := by
  simp [put, h]

@[simp] lemma put_sent (i : ℕ) (c : TendermintConsensus)
    (acts : List ConsensusAction) : (net.put i c acts).sent = net.sent ++ broadcasts acts := rfl

@[simp] lemma put_put (i : ℕ) (c₁ c₂ : TendermintConsensus) (a₁ a₂ : List ConsensusAction) :
    (net.put i c₁ a₁).put i c₂ a₂ = net.put i c₂ (a₁ ++ a₂) := by
  simp [put]

end Network

/-- The check a node makes on the signature of a proposal or vote. -/
def TendermintConsensus.Accepts (env : Env) (c : TendermintConsensus) : ConsensusMessage → Prop
  | .proposal height round block vid sig =>
    c.proposalSigned env height round block vid sig = true
  | .prevote _ round hash vid sig => c.voteAuthentic env round hash vid sig .prevote = true
  | .precommit _ round hash vid sig => c.voteAuthentic env round hash vid sig .precommit = true
  | _ => False

/-- A call does not bring `c` a vote it would accept in the name of a validator of `H` that did
not cast it. -/
def Genuine (env : Env) (H : Set ℕ) (sent : List ConsensusMessage) (c : TendermintConsensus)
    (e : Event) : Prop :=
  ∀ input msg vote, e = .message input msg → msg.vote env = some vote → msg.height = c.height →
    vote.voter ∈ H → c.Accepts env msg → vote ∈ votes env sent

/-- Every recorded vote in the name of a validator of `H` was cast. -/
structure TablesInv (env : Env) (H : Set ℕ) (sent : List ConsensusMessage)
    (c : TendermintConsensus) : Prop where
  prevotes : ∀ vid ∈ H, ∀ hash, c.roundState.prevotes.lookup vid = some hash →
    ⟨.prevote, c.height, c.roundState.round, hash, vid⟩ ∈ votes env sent
  precommits : ∀ vid ∈ H, ∀ hash, c.roundState.precommits.lookup vid = some hash →
    ⟨.precommit, c.height, c.roundState.round, hash, vid⟩ ∈ votes env sent
  proposals : ∀ height round, c.height ≤ height → ∀ vid ∈ H, ∀ hash,
    (vid, hash) ∈ (c.proposalsSeen.lookup (height, round)).getD [] →
    ⟨.proposal, height, round, some hash, vid⟩ ∈ votes env sent

/-- What holds of the node of validator `i` in `H`. -/
structure NodeInv (env : Env) (H : Set ℕ) (sent : List ConsensusMessage) (i : ℕ)
    (c : TendermintConsensus) : Prop where
  myId : c.myId = i
  honest : c.byzantineDoublePrecommit = false
  phase : c.PhaseInv
  /-- It cast no vote in a later slot … -/
  past : ∀ vote ∈ votes env sent, vote.voter = i →
    vote.height < c.height ∨ vote.height = c.height ∧ vote.round ≤ c.roundState.round
  /-- … and knows about those of the present one. -/
  present : ∀ vote ∈ votes env sent, vote.voter = i → vote.height = c.height →
    vote.round = c.roundState.round → c.roundState.Voted vote.phase
  tables : TablesInv env H sent c

/-- Each validator of `H` cast at most one vote per slot and phase. -/
def VotesUnique (env : Env) (sent : List ConsensusMessage) : Prop :=
  ∀ v ∈ votes env sent, ∀ w ∈ votes env sent, v.voter = w.voter → v.height = w.height →
    v.round = w.round → v.phase = w.phase → v.hash = w.hash

/-- The invariant of a network whose validators in `H` run the engine. -/
structure NetInv (env : Env) (H : Set ℕ) (net : Network) : Prop where
  node : ∀ i ∈ H, NodeInv env H net.sent i (net.nodes i)
  unique : VotesUnique env net.sent

/-! ### Recorded votes -/

section Tables

variable {env : Env} {H : Set ℕ} {sent : List ConsensusMessage} {c c' : TendermintConsensus}

lemma TablesInv.mono (h : TablesInv env H sent c) (msgs : List ConsensusMessage) :
    TablesInv env H (sent ++ msgs) c := by
  constructor
  · intro vid hvid hash hlookup
    rw [votes_append]
    exact mem_append_left _ (h.prevotes vid hvid hash hlookup)
  · intro vid hvid hash hlookup
    rw [votes_append]
    exact mem_append_left _ (h.precommits vid hvid hash hlookup)
  · intro height round hle vid hvid hash hmem
    rw [votes_append]
    exact mem_append_left _ (h.proposals height round hle vid hvid hash hmem)

/-- Only the slot and the tables matter. -/
lemma TablesInv.of_eq (h : TablesInv env H sent c) (hheight : c'.height = c.height)
    (hround : c'.roundState.round = c.roundState.round)
    (hprevotes : c'.roundState.prevotes = c.roundState.prevotes)
    (hprecommits : c'.roundState.precommits = c.roundState.precommits)
    (hproposals : c'.proposalsSeen = c.proposalsSeen) : TablesInv env H sent c' := by
  constructor
  · rw [hheight, hround, hprevotes]
    exact h.prevotes
  · rw [hheight, hround, hprecommits]
    exact h.precommits
  · rw [hheight, hproposals]
    exact h.proposals

lemma TablesInv.enterRound (h : ∀ height round, c.height ≤ height → ∀ vid ∈ H, ∀ hash,
      (vid, hash) ∈ (c.proposalsSeen.lookup (height, round)).getD [] →
      ⟨.proposal, height, round, some hash, vid⟩ ∈ votes env sent) (round now : ℕ) :
    TablesInv env H sent (c.enterRound round now) := by
  constructor
  · simp [TendermintConsensus.enterRound, setTimeoutsForRound, RoundState.new]
  · simp [TendermintConsensus.enterRound, setTimeoutsForRound, RoundState.new]
  · exact h

variable {vid : ℕ} {hash : Option Hash}

section

variable (h : TablesInv env H sent c)

include h

/-- Recording a prevote that was cast. -/
lemma TablesInv.recordPrevote (hcast : vid ∈ H →
      ⟨.prevote, c.height, c.roundState.round, hash, vid⟩ ∈ votes env sent) :
    TablesInv env H sent (c.recordPrevote vid hash) := by
  refine ⟨fun w hw hash' hlookup => ?_, h.precommits, h.proposals⟩
  simp only [TendermintConsensus.recordPrevote, Dict.lookup_insert_apply] at hlookup ⊢
  split_ifs at hlookup with hwv
  · cases hlookup
    exact hwv ▸ hcast (hwv ▸ hw)
  · exact h.prevotes w hw hash' hlookup

lemma TablesInv.recordPrecommit (sig : Option Bytes) (hcast : vid ∈ H →
      ⟨.precommit, c.height, c.roundState.round, hash, vid⟩ ∈ votes env sent) :
    TablesInv env H sent (c.recordPrecommit vid hash sig) := by
  refine ⟨h.prevotes, fun w hw hash' hlookup => ?_, h.proposals⟩
  simp only [TendermintConsensus.recordPrecommit, Dict.lookup_insert_apply] at hlookup ⊢
  split_ifs at hlookup with hwv
  · cases hlookup
    exact hwv ▸ hcast (hwv ▸ hw)
  · exact h.precommits w hw hash' hlookup

/-- The node's own votes are recorded as they are cast. -/
lemma TablesInv.castPrevote (hcast : c.ownVote .prevote hash ∈ votes env sent) :
    TablesInv env H sent (c.castPrevote hash) :=
  (h.recordPrevote fun _ => hcast).of_eq rfl rfl rfl rfl rfl

lemma TablesInv.castPrecommit (hcast : c.ownVote .precommit hash ∈ votes env sent) :
    TablesInv env H sent (c.castPrecommit env hash) :=
  (h.recordPrecommit none fun _ => hcast).of_eq rfl rfl rfl rfl rfl

lemma TablesInv.recordProposal {height round : ℕ} {hash : Hash}
    (hcast : vid ∈ H → ⟨.proposal, height, round, some hash, vid⟩ ∈ votes env sent) :
    TablesInv env H sent (c.recordProposal height round vid hash) := by
  simp only [TendermintConsensus.recordProposal]
  split
  · exact h
  · refine ⟨h.prevotes, h.precommits, fun height' round' hle w hw hash' hmem => ?_⟩
    by_cases hslot : (height', round') = (height, round)
    · rw [hslot, AList.lookup_insert, Option.getD_some, mem_append, mem_singleton] at hmem
      obtain ⟨rfl, rfl⟩ := Prod.mk.inj hslot
      rcases hmem with hmem | hmem
      · exact h.proposals height' round' hle w hw hash' hmem
      · cases hmem
        exact hcast hw
    · rw [AList.lookup_insert_ne hslot] at hmem
      exact h.proposals height' round' hle w hw hash' hmem

/-- A move records only votes that were cast. -/
lemma TablesInv.of_move {e : Event} {acts : List ConsensusAction} (hgen : Genuine env H sent c e)
    (hmove : Move env e c acts c') : TablesInv env H (sent ++ broadcasts acts) c' := by
  have hmem {vote : Vote} (hvote : vote ∈ votes env (broadcasts acts)) :
      vote ∈ votes env (sent ++ broadcasts acts) := by
    rw [votes_append]
    exact mem_append_right _ hvote
  have hold := h.mono (broadcasts acts)
  cases hmove with
  | say | dropProposed | registerKey | storeAttestation | adoptBlock =>
    exact hold.of_eq rfl rfl rfl rfl rfl
  | skip => exact TablesInv.enterRound hold.proposals _ _
  | @propose input he =>
    refine TablesInv.of_eq (hold.castPrevote (hmem ?_)) rfl rfl rfl rfl rfl
    rw [votes_propose]
    simp
  | @proposeTimedOut now =>
    have hvotes := votes_proposeTimedOut env c now
    simp only [TendermintConsensus.proposeTimedOut] at hvotes hold hmem ⊢
    split_ifs at hvotes hold hmem ⊢
    · exact TablesInv.of_eq (hold.castPrevote (hmem (by simp [hvotes]))) rfl rfl rfl rfl rfl
    · exact hold.of_eq rfl rfl rfl rfl rfl
  | @prevoteTimedOut now =>
    have hvotes := votes_prevoteTimedOut env c now
    simp only [TendermintConsensus.prevoteTimedOut] at hvotes hold hmem ⊢
    split_ifs at hvotes hold hmem ⊢
    · exact hold.of_eq rfl rfl rfl rfl rfl
    · exact TablesInv.of_eq (hold.castPrecommit (hmem (by simp [hvotes]))) rfl rfl rfl rfl rfl
  | voteOnProposal =>
    rw [c.voteOnProposal_eq]
    refine TablesInv.of_eq (hold.castPrevote (hmem ?_)) rfl rfl rfl rfl rfl
    rw [votes_voteOnProposal]
    simp
  | recordProposal he hsigned =>
    refine hold.recordProposal fun hvid => ?_
    rw [votes_append]
    exact mem_append_left _ (hgen _ _ _ he rfl rfl hvid hsigned)
  | recordPrevote he hauth =>
    refine hold.recordPrevote fun hvid => ?_
    rw [votes_append]
    exact mem_append_left _ (hgen _ _ _ he rfl rfl hvid hauth)
  | recordPrecommit he hauth =>
    refine hold.recordPrecommit _ fun hvid => ?_
    rw [votes_append]
    exact mem_append_left _ (hgen _ _ _ he rfl rfl hvid hauth)

end

lemma Genuine.mono {e : Event} (h : Genuine env H sent c e) (msgs : List ConsensusMessage) :
    Genuine env H (sent ++ msgs) c e := by
  intro input msg vote he hvote hheight hvoter haccepts
  rw [votes_append]
  exact mem_append_left _ (h input msg vote he hvote hheight hvoter haccepts)

lemma Genuine.of_move {e : Event} {acts : List ConsensusAction} (h : Genuine env H sent c e)
    (hmove : Move env e c acts c') : Genuine env H sent c' e := by
  intro input msg vote he hvote hheight hvoter haccepts
  have hkey : ¬ e.IsKeyAnnounce := by
    rintro ⟨input', vid, pk, pop, sig, he'⟩
    rw [he] at he'
    cases he'
    simp [ConsensusMessage.vote] at hvote
  have hsame := hmove.sameNode
  refine h input msg vote he hvote (hheight.trans hsame.height) hvoter ?_
  cases msg with
  | proposal | prevote | precommit =>
    simpa only [Accepts, proposalSigned, voteAuthentic, hmove.validatorSet_eq hkey, hsame.chainId,
      hsame.height] using haccepts
  | _ => simp [Accepts] at haccepts

/-- No call brings a vote of a validator of `H` that conflicts with a recorded one. -/
lemma not_conflict {e : Event} (htables : TablesInv env H sent c) (hunique : VotesUnique env sent)
    (hgen : Genuine env H sent c e) (hvid : vid ∈ H) : ¬ Conflict env e c vid := by
  intro hconflict
  cases hconflict with
  | @proposal input block sig seen he hsigned hseen hne =>
    obtain ⟨entry, hfind, rfl⟩ := Option.map_eq_some_iff.mp hseen
    have hid : entry.1 = vid := by simpa using List.find?_some hfind
    have hmem : (vid, entry.2) ∈
        (c.proposalsSeen.lookup (c.height, c.roundState.round)).getD [] :=
      hid ▸ List.mem_of_find?_eq_some hfind
    have hhash := hunique _ (htables.proposals _ _ le_rfl vid hvid _ hmem) _
      (hgen _ _ _ he rfl rfl hvid hsigned) rfl rfl rfl rfl
    exact hne (Option.some_inj.mp hhash)
  | prevote he hauth hseen hne =>
    exact hne (hunique _ (htables.prevotes vid hvid _ hseen) _
      (hgen _ _ _ he rfl rfl hvid hauth) rfl rfl rfl rfl)
  | precommit he hauth hseen hne =>
    exact hne (hunique _ (htables.precommits vid hvid _ hseen) _
      (hgen _ _ _ he rfl rfl hvid hauth) rfl rfl rfl rfl)

end Tables

/-! ### Votes are unique -/

section Net

variable {env : Env} {H : Set ℕ} {net : Network} {i : ℕ} {c c' : TendermintConsensus}
  {acts : List ConsensusAction}

/-- A node at the start of a round, without evidence about its height or later ones. -/
lemma NodeInv.of_new {round now : ℕ} (hid : c.myId = i) (hbyz : c.byzantineDoublePrecommit = false)
    (hround : c.roundState = RoundState.new round now)
    (hproposals : ∀ height round, c.height ≤ height →
      c.proposalsSeen.lookup (height, round) = none) :
    NodeInv env H [] i c := by
  refine ⟨hid, hbyz, ?_, by simp, by simp, ?_⟩
  · rw [PhaseInv, hround]
    exact fun _ => rfl
  · constructor
    · simp [hround, RoundState.new]
    · simp [hround, RoundState.new]
    · intro height round hle vid _ hash hmem
      simp [hproposals height round hle] at hmem

/-- The votes of node `i` do not concern the other nodes. -/
lemma NodeInv.other {sent : List ConsensusMessage} {j : ℕ} (h : NodeInv env H sent j c)
    (hne : j ≠ i) (hvoter : ∀ v ∈ votes env (broadcasts acts), v.voter = i) :
    NodeInv env H (sent ++ broadcasts acts) j c := by
  have hold {v : Vote} (hv : v ∈ votes env (sent ++ broadcasts acts)) (hj : v.voter = j) :
      v ∈ votes env sent := by
    rw [votes_append, mem_append] at hv
    rcases hv with hv | hv
    · exact hv
    · exact absurd (hj.symm.trans (hvoter v hv)) hne
  exact
    { myId := h.myId
      honest := h.honest
      phase := h.phase
      past := fun v hv hj => h.past v (hold hv hj) hj
      present := fun v hv hj => h.present v (hold hv hj) hj
      tables := h.tables.mono _ }

/-- New votes for the present slot, in phases not voted in, keep the votes unique. -/
lemma VotesUnique.append {sent : List ConsensusMessage} (h : VotesUnique env sent)
    (hnode : NodeInv env H sent i c) (hcast : CastSpec env c acts c') :
    VotesUnique env (sent ++ broadcasts acts) := by
  -- an old vote of this node in the present slot excludes a new one of the same phase
  have hclash {v w : Vote} (hv : v ∈ votes env sent) (hw : w ∈ votes env (broadcasts acts))
      (hvoter : v.voter = w.voter) (hheight : v.height = w.height) (hround : v.round = w.round)
      (hphase : v.phase = w.phase) : False := by
    obtain ⟨wheight, wround, wvoter⟩ := hcast.slot w hw
    apply (hcast.fresh w hw).1
    rw [← hphase]
    exact hnode.present v hv (hvoter.trans (wvoter.trans hnode.myId)) (hheight.trans wheight)
      (hround.trans wround)
  intro v hv w hw hvoter hheight hround hphase
  rw [votes_append, mem_append] at hv hw
  rcases hv with hv | hv <;> rcases hw with hw | hw
  · exact h v hv w hw hvoter hheight hround hphase
  · exact (hclash hv hw hvoter hheight hround hphase).elim
  · exact (hclash hw hv hvoter.symm hheight.symm hround.symm hphase.symm).elim
  · exact hcast.unique v hv w hw hphase

section

variable (h : NetInv env H net) (hi : i ∈ H) (hc : net.nodes i = c)

include h hi hc

/-- A node step that stays in its round. -/
lemma NetInv.put_stay (hcast : CastSpec env c acts c') (hsame : SameNode c c')
    (hround : c'.roundState.round = c.roundState.round)
    (hvoted : ∀ phase, c.roundState.Voted phase → c'.roundState.Voted phase) (hphase : c'.PhaseInv)
    (htables : TablesInv env H (net.sent ++ broadcasts acts) c') :
    NetInv env H (net.put i c' acts) := by
  have hnode := h.node i hi
  rw [hc] at hnode
  have hvoter : ∀ v ∈ votes env (broadcasts acts), v.voter = i := fun v hv =>
    (hcast.slot v hv).2.2.trans hnode.myId
  refine ⟨fun j hj => ?_, h.unique.append hnode hcast⟩
  by_cases hji : j = i
  · subst hji
    rw [Network.put_nodes_self]
    refine ⟨hsame.myId.trans hnode.myId, hsame.byzantineDoublePrecommit.trans hnode.honest,
      hphase, fun v hv hown => ?_, fun v hv hown => ?_, htables⟩
    all_goals
      rw [Network.put_sent, votes_append, mem_append] at hv
      rw [hsame.height, hround]
    · rcases hv with hv | hv
      · exact hnode.past v hv hown
      · obtain ⟨hheight, hround', -⟩ := hcast.slot v hv
        exact .inr ⟨hheight, hround'.le⟩
    · intro hheight hround'
      rcases hv with hv | hv
      · exact hvoted _ (hnode.present v hv hown hheight hround')
      · exact (hcast.fresh v hv).2
  · rw [Network.put_nodes_of_ne _ hji]
    exact (h.node j hj).other hji hvoter

/-- A node enters a later slot. -/
lemma NetInv.put_enterRound {round now : ℕ} (hid : c'.myId = c.myId)
    (hbyz : c'.byzantineDoublePrecommit = c.byzantineDoublePrecommit)
    (hlater : c.height < c'.height ∨ c'.height = c.height ∧ c.roundState.round < round)
    (hproposals : ∀ height round, c'.height ≤ height → ∀ vid ∈ H, ∀ hash,
      (vid, hash) ∈ (c'.proposalsSeen.lookup (height, round)).getD [] →
      ⟨.proposal, height, round, some hash, vid⟩ ∈ votes env net.sent) :
    NetInv env H (net.put i (c'.enterRound round now) []) := by
  have hnode := h.node i hi
  rw [hc] at hnode
  have hsent : net.sent ++ broadcasts [] = net.sent := by simp
  refine ⟨fun j hj => ?_, ?_⟩
  · by_cases hji : j = i
    · subst hji
      rw [Network.put_nodes_self, Network.put_sent, hsent]
      refine ⟨hid.trans hnode.myId, hbyz.trans hnode.honest, phaseInv_enterRound _ _ _,
        fun v hv hown => ?_, fun v hv hown hheight hround => ?_, .enterRound hproposals _ _⟩
      all_goals
        have hpast := hnode.past v hv hown
      · show v.height < c'.height ∨ v.height = c'.height ∧ v.round ≤ round
        omega
      · have hheight' : v.height = c'.height := hheight
        have hround' : v.round = round := hround
        omega
    · rw [Network.put_nodes_of_ne _ hji, Network.put_sent, hsent]
      exact h.node j hj
  · rw [Network.put_sent, hsent]
    exact h.unique

lemma NetInv.put_move {e : Event} (hgen : Genuine env H net.sent c e)
    (hmove : Move env e c acts c') : NetInv env H (net.put i c' acts) := by
  have hnode := h.node i hi
  rw [hc] at hnode
  have hsame := hmove.sameNode
  rcases hmove.slot with ⟨hround, hvoted⟩ | ⟨rfl, input, msg, -, hlt, rfl⟩
  · exact h.put_stay hi hc (hmove.castSpec hnode.phase) hsame hround hvoted
      (hmove.phaseInv hnode.phase) (hnode.tables.of_move hgen hmove)
  · exact h.put_enterRound hi hc rfl rfl (.inr ⟨rfl, hlt⟩) hnode.tables.proposals

lemma NetInv.put_moves {e : Event} (hgen : Genuine env H net.sent c e)
    (hmoves : Moves env e c acts c') :
    NetInv env H (net.put i c' acts) ∧ Genuine env H (net.put i c' acts).sent c' e := by
  induction hmoves generalizing net with
  | refl c =>
    have hput : net.put i c [] = net := by
      simp [Network.put, ← hc]
    rw [hput]
    exact ⟨h, hgen⟩
  | @step c c₁ c₂ a₁ a₂ move moves ih =>
    have hstep := h.put_move hi hc hgen move
    have hgen' := (hgen.of_move move).mono (broadcasts a₁)
    simpa using ih hstep (Network.put_nodes_self _ _ _ _) hgen'

end

/-- The call does not take the node back to an earlier round of its height. -/
def KeepsRound (c : TendermintConsensus) (outcome : Outcome) : Prop :=
  outcome.node.height = c.height → c.roundState.round ≤ outcome.node.roundState.round

instance (c : TendermintConsensus) (outcome : Outcome) : Decidable (KeepsRound c outcome) :=
  inferInstanceAs (Decidable (_ → _))

section

variable (h : NetInv env H net) (hi : i ∈ H) (hc : net.nodes i = c)

include h hi hc

lemma NetInv.put_opened {e : Event} : NetInv env H (net.put i (c.opened e) []) := by
  have hnode := h.node i hi
  rw [hc] at hnode
  have htables := hnode.tables.mono (broadcasts [])
  cases e with
  | tick =>
    refine h.put_stay hi hc (.of_votes_nil rfl) ⟨rfl, rfl, rfl, rfl, rfl, rfl, rfl⟩ rfl
      (fun _ hv => hv) hnode.phase (htables.of_eq rfl rfl rfl rfl rfl)
  | message | committed =>
    exact h.put_stay hi hc (.of_votes_nil rfl) (.refl c) rfl (fun _ hv => hv) hnode.phase htables

lemma NetInv.put_precommit (hash : Option Hash) (now : ℕ) :
    NetInv env H (net.put i (c.precommitOnQuorum env hash now).1
      (c.precommitOnQuorum env hash now).2) := by
  have hnode := h.node i hi
  rw [hc] at hnode
  have hvotes := votes_precommitOnQuorum env hash now hnode.honest
  have htables := hnode.tables.mono (broadcasts (c.precommitOnQuorum env hash now).2)
  have hmem {vote : Vote}
      (hv : vote ∈ votes env (broadcasts (c.precommitOnQuorum env hash now).2)) :
      vote ∈ votes env (net.sent ++ broadcasts (c.precommitOnQuorum env hash now).2) := by
    rw [votes_append]
    exact mem_append_right _ hv
  simp only [precommitOnQuorum] at hvotes htables hmem ⊢
  split_ifs at hvotes htables hmem ⊢ with hdone
  · exact h.put_stay hi hc (.of_votes_nil hvotes) ⟨rfl, rfl, rfl, rfl, rfl, rfl, rfl⟩ rfl
      (fun _ hv => voted_enterPhase (by simp) _ hv) (phaseInv_of_phase_ne (by simp [enterPhase]))
      (htables.of_eq rfl rfl rfl rfl rfl)
  · obtain ⟨block, round, hlock⟩ := c.lockOn_eq env hash
    rw [hlock]
    refine h.put_stay hi hc (.of_votes_singleton hvotes hdone rfl)
      ⟨rfl, rfl, rfl, rfl, rfl, rfl, rfl⟩ rfl (fun _ hv => ?_)
      (phaseInv_of_phase_ne (by simp [enterPhase])) ?_
    · exact voted_enterPhase (by simp) _ (voted_castPrecommit hash hv)
    · exact TablesInv.of_eq (htables.castPrecommit (hmem (by simp [hvotes]))) rfl rfl rfl rfl rfl

lemma NetInv.put_commit (block : Block) :
    NetInv env H (net.put i (c.commitProposed env block (blockHash env block)).1
      [(c.commitProposed env block (blockHash env block)).2]) := by
  have hnode := h.node i hi
  rw [hc] at hnode
  refine h.put_stay hi hc (.of_votes_nil rfl) ⟨rfl, rfl, rfl, rfl, rfl, rfl, rfl⟩ rfl
    (fun phase hv => ?_) (phaseInv_of_phase_ne (by simp [commitProposed]))
    ((hnode.tables.mono _).of_eq rfl rfl rfl rfl rfl)
  cases phase with
  | proposal => simp [commitProposed, RoundState.Voted]
  | prevote | precommit => exact hv

/-- Advancing is entering the next round, unless the counter starts again. -/
lemma NetInv.put_advance (now : ℕ)
    (hkeep : c.roundState.round ≤ (c.advanceRound env now).roundState.round) :
    NetInv env H (net.put i (c.advanceRound env now) []) := by
  have hnode := h.node i hi
  rw [hc] at hnode
  obtain ⟨vs, missedProposals, missedVotes, heq, -⟩ := c.advanceRound_eq env now
  rw [heq] at hkeep ⊢
  have hround : c.roundState.round ≤ c.nextRound := hkeep
  have hnext := c.nextRound_cases
  exact h.put_enterRound hi hc rfl rfl (.inr ⟨rfl, by omega⟩) hnode.tables.proposals

end

lemma mem_of_mem_retainProposals {cutoff : ℕ} {key : ℕ × ℕ} {entry : ℕ × Hash}
    (hmem : entry ∈ ((c.retainProposals cutoff).lookup key).getD []) :
    entry ∈ (c.proposalsSeen.lookup key).getD [] := by
  cases hlookup : (c.retainProposals cutoff).lookup key with
  | none => simp [hlookup] at hmem
  | some entries =>
    have hentries := AList.mem_lookup_iff.mp (Option.mem_def.mpr hlookup)
    have hkept : c.proposalsSeen.lookup key = some entries :=
      AList.mem_lookup_iff.mpr (mem_of_mem_filter hentries)
    simpa [hlookup, hkept] using hmem

/-- A call keeps the invariant, and slashes no validator of `H`. -/
theorem NetInv.step {e : Event} (h : NetInv env H net) (hi : i ∈ H)
    (hgen : Genuine env H net.sent ((net.nodes i).opened e) e)
    (hkeep : KeepsRound (net.nodes i) ((net.nodes i).handle env e)) :
    NetInv env H (net.step env (i, e)) ∧
      ∀ vid ∈ ((net.nodes i).handle env e).equivocationSlashes, vid ∉ H := by
  have hspec := (net.nodes i).handle_spec env e
  have hmoves {acts : List ConsensusAction} {c' : TendermintConsensus}
      (moves : Moves env e ((net.nodes i).opened e) acts c') :
      NetInv env H (net.put i c' acts) ∧ Genuine env H (net.put i c' acts).sent c' e := by
    have hopened : NetInv env H (net.put i ((net.nodes i).opened e) []) := h.put_opened hi rfl
    simpa using hopened.put_moves hi (Network.put_nodes_self _ _ _ _) (by simpa using hgen) moves
  have hself {acts : List ConsensusAction} {c' : TendermintConsensus} :
      (net.put i c' acts).nodes i = c' := Network.put_nodes_self _ _ _ _
  have hopened_height : ((net.nodes i).opened e).height = (net.nodes i).height := by
    cases e <;> rfl
  rw [Network.step]
  generalize (net.nodes i).handle env e = outcome at hspec hkeep ⊢
  cases hspec with
  | stay moves => exact ⟨(hmoves moves).1, by simp⟩
  | precommit moves =>
    exact ⟨by simpa using (hmoves moves).1.put_precommit hi hself _ _, by simp⟩
  | commit moves => exact ⟨by simpa using (hmoves moves).1.put_commit hi hself _, by simp⟩
  | @commitAdvance acts c' block now moves hcan hround =>
    have hcommit := (hmoves moves).1.put_commit hi hself block
    simp only [Network.put_put] at hcommit
    have hlater : c'.roundState.round ≤ ((c'.commitProposed env block
        (blockHash env block)).1.advanceRound env now).roundState.round := by
      rw [hround]
      exact hkeep ((height_advanceRound _ _ _).trans (moves.sameNode.height.trans hopened_height))
    exact ⟨by simpa using hcommit.put_advance hi hself now hlater, by simp⟩
  | @advance acts c' now moves hround =>
    have hlater : c'.roundState.round ≤ (c'.advanceRound env now).roundState.round := by
      rw [hround]
      exact hkeep ((height_advanceRound _ _ _).trans (moves.sameNode.height.trans hopened_height))
    exact ⟨by simpa using (hmoves moves).1.put_advance hi hself now hlater, by simp⟩
  | @slash acts c' vid moves hconflict hacts =>
    obtain ⟨hnet, hgen'⟩ := hmoves moves
    have hnode := hnet.node i hi
    rw [hself] at hnode
    have hquiet := votes_slashes env hacts
    refine ⟨?_, ?_⟩
    · obtain ⟨vs, heq, -⟩ := c'.sanovSlashEquivocation_eq env vid sanovEquivocationWindow
      rw [heq]
      have hslash : NetInv env H ((net.put i c' []).put i { c' with validatorSet := vs } acts) :=
        hnet.put_stay hi hself (.of_votes_nil hquiet) ⟨rfl, rfl, rfl, rfl, rfl, rfl, rfl⟩ rfl
          (fun _ hv => hv) hnode.phase ((hnode.tables.mono _).of_eq rfl rfl rfl rfl rfl)
      simpa using hslash
    · intro w hw hH
      obtain rfl : w = vid := by simpa using hw
      exact not_conflict hnode.tables hnet.unique hgen' hH hconflict
  | @committed input =>
    obtain ⟨c', heq, hid, -, -, hbyz, hheight, hproposals, -⟩ :=
      (net.nodes i).onBlockCommitted_eq env input
    rw [heq]
    refine ⟨h.put_enterRound hi rfl hid hbyz (.inl (by omega)) ?_, by simp⟩
    intro height round hle vid hvid hash hmem
    rw [hproposals] at hmem
    exact (h.node i hi).tables.proposals _ _ (by omega) vid hvid hash
      (mem_of_mem_retainProposals hmem)

end Net

def fourNetwork : Network := ⟨fourNode, []⟩

end EvaporChain
