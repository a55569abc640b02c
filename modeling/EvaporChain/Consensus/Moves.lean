import EvaporChain.Consensus.Engine

/-!
# What a call into the engine can do

Every call is a sequence of elementary moves, followed by at most one closing move: precommitting
on a quorum, or advancing the round. Invariants are proved once per move.
-/

namespace EvaporChain

open Core TendermintConsensus

/-- Actions that carry no vote and no block: requests, key announcements, attestations. -/
inductive ConsensusAction.Auxiliary : ConsensusAction → Prop
  | requestSync (lo hi : ℕ) : Auxiliary (.requestSync lo hi)
  | keyAnnounce (vid : ℕ) (pk pop continuity : Bytes) :
      Auxiliary (.broadcastMessage (.keyAnnounce vid pk pop continuity))
  | daAttestation (att : DAAttestation) : Auxiliary (.broadcastMessage (.daAttestation att))

/-- Elementary moves of a node during the call `e`: a change of state with its actions. -/
inductive Move (env : Env) (e : Event) :
    TendermintConsensus → List ConsensusAction → TendermintConsensus → Prop
  | say {c : TendermintConsensus} {acts : List ConsensusAction} (h : ∀ a ∈ acts, a.Auxiliary) :
      Move env e c acts c
  | propose {c : TendermintConsensus} {input : TickInput} (he : e = .tick input)
      (hphase : c.roundState.phase = .propose) (hnone : c.roundState.proposedBlock = none)
      (hproposer : c.amIProposer env = true) :
      Move env e c (c.propose env input).2 (c.propose env input).1
  | proposeTimedOut {c : TendermintConsensus} {now : ℕ}
      (hphase : c.roundState.phase = .propose) :
      Move env e c (c.proposeTimedOut env now).2 (c.proposeTimedOut env now).1
  | prevoteTimedOut {c : TendermintConsensus} {now : ℕ}
      (hphase : c.roundState.phase = .prevote) :
      Move env e c (c.prevoteTimedOut env now).2 (c.prevoteTimedOut env now).1
  | dropProposed {c : TendermintConsensus} : Move env e c [] c.dropProposed
  | registerKey {c : TendermintConsensus} {input : CallInput} {vid : ℕ} {pk pop sig : Bytes}
      (he : e = .message input (.keyAnnounce vid pk pop sig))
      (hadmitted : c.keyAdmitted env vid pk pop sig = true) :
      Move env e c [] (c.registerKey vid pk pop)
  | storeAttestation {c : TendermintConsensus} {input : CallInput} {att : DAAttestation}
      (he : e = .message input (.daAttestation att)) (hvalid : c.attestationValid env att = true) :
      Move env e c [] (c.storeAttestation att)
  | skip {c : TendermintConsensus} {input : CallInput} {msg : ConsensusMessage}
      (he : e = .message input msg) (hheight : msg.height = c.height)
      (hround : c.roundState.round < msg.round) :
      Move env e c [] (c.enterRound msg.round input.now)
  | recordProposal {c : TendermintConsensus} {input : CallInput} {block : Block} {vid : ℕ}
      {sig : Option Bytes}
      (he : e = .message input (.proposal c.height c.roundState.round block vid sig))
      (hsigned : c.proposalSigned env c.height c.roundState.round block vid sig = true) :
      Move env e c [] (c.recordProposal c.height c.roundState.round vid (blockHash env block))
  | adoptBlock {c : TendermintConsensus} {input : CallInput} {block : Block} {vid : ℕ}
      {sig : Option Bytes}
      (he : e = .message input (.proposal c.height c.roundState.round block vid sig)) :
      Move env e c [] (c.adoptBlock block)
  | voteOnProposal {c : TendermintConsensus} {block : Block} {now : ℕ}
      (hblock : c.roundState.proposedBlock = some block) (hvoted : c.roundState.prevoted = false) :
      Move env e c (c.voteOnProposal env block now).2 (c.voteOnProposal env block now).1
  | recordPrevote {c : TendermintConsensus} {input : CallInput} {hash : Option Hash} {vid : ℕ}
      {sig : Option Bytes}
      (he : e = .message input (.prevote c.height c.roundState.round hash vid sig))
      (hauth : c.voteAuthentic env c.roundState.round hash vid sig .prevote = true) :
      Move env e c [] (c.recordPrevote vid hash)
  | recordPrecommit {c : TendermintConsensus} {input : CallInput} {hash : Option Hash} {vid : ℕ}
      {sig : Option Bytes}
      (he : e = .message input (.precommit c.height c.roundState.round hash vid sig))
      (hauth : c.voteAuthentic env c.roundState.round hash vid sig .precommit = true) :
      Move env e c [] (c.recordPrecommit vid hash sig)

/-- Two conflicting proposals, prevotes or precommits of `vid` in one slot: the one recorded in
`c` and the one the call `e` brings. -/
inductive Conflict (env : Env) (e : Event) (c : TendermintConsensus) (vid : ℕ) : Prop
  | proposal {input : CallInput} {block : Block} {sig : Option Bytes} {seen : Hash}
      (he : e = .message input (.proposal c.height c.roundState.round block vid sig))
      (hsigned : c.proposalSigned env c.height c.roundState.round block vid sig = true)
      (hseen : c.seenProposal c.height c.roundState.round vid = some seen)
      (hne : seen ≠ blockHash env block)
  | prevote {input : CallInput} {hash seen : Option Hash} {sig : Option Bytes}
      (he : e = .message input (.prevote c.height c.roundState.round hash vid sig))
      (hauth : c.voteAuthentic env c.roundState.round hash vid sig .prevote = true)
      (hseen : c.roundState.prevotes.lookup vid = some seen) (hne : seen ≠ hash)
  | precommit {input : CallInput} {hash seen : Option Hash} {sig : Option Bytes}
      (he : e = .message input (.precommit c.height c.roundState.round hash vid sig))
      (hauth : c.voteAuthentic env c.roundState.round hash vid sig .precommit = true)
      (hseen : c.roundState.precommits.lookup vid = some seen) (hne : seen ≠ hash)

inductive Moves (env : Env) (e : Event) :
    TendermintConsensus → List ConsensusAction → TendermintConsensus → Prop
  | refl (c : TendermintConsensus) : Moves env e c [] c
  | step {c c₁ c₂ : TendermintConsensus} {a₁ a₂ : List ConsensusAction}
      (move : Move env e c a₁ c₁) (moves : Moves env e c₁ a₂ c₂) : Moves env e c (a₁ ++ a₂) c₂

/-- A call starts by refreshing the delegated stakes when it is a tick. -/
def TendermintConsensus.opened (c : TendermintConsensus) : Event → TendermintConsensus
  | .tick input =>
    { c with validatorSet := c.validatorSet.refreshDelegatedStakes input.delegations }
  | _ => c

/-- A node with the attestation that a call brings. -/
def TendermintConsensus.attested (c : TendermintConsensus) : Event → TendermintConsensus
  | .message _ (.daAttestation att) => c.storeAttestation att
  | _ => c

/-- The data-availability gate counts the same attestations. -/
structure SameGate (c c' : TendermintConsensus) : Prop where
  attestations : c'.daAttestations = c.daAttestations
  proposers : c'.daBlockProposers = c.daBlockProposers
  smallCluster : c'.smallClusterDaMode = c.smallClusterDaMode

structure CanCommit (env : Env) (c : TendermintConsensus) (block : Block) : Prop where
  quorum : c.checkPrecommitQuorum = some (some (blockHash env block))
  proposed : c.roundState.proposedBlock = some block
  gate : c.daGateOpen block = true

/-- The ways a call can go: moves, then at most one closing step. -/
inductive CallSpec (env : Env) (e : Event) (c : TendermintConsensus) : Outcome → Prop
  | stay {acts : List ConsensusAction} {c' : TendermintConsensus}
      (moves : Moves env e (c.opened e) acts c') : CallSpec env e c ⟨c', acts, []⟩
  | precommit {acts : List ConsensusAction} {c' : TendermintConsensus} {hash : Option Hash}
      {now : ℕ} (moves : Moves env e (c.opened e) acts c')
      (hphase : c'.roundState.phase = .prevote) (hquorum : c'.checkPrevoteQuorum = some hash) :
      CallSpec env e c ⟨(c'.precommitOnQuorum env hash now).1,
        acts ++ (c'.precommitOnQuorum env hash now).2, []⟩
  | commit {acts : List ConsensusAction} {c' : TendermintConsensus} {block : Block}
      (moves : Moves env e (c.opened e) acts c') (hcommit : CanCommit env c' block)
      (hgate : SameGate (c.attested e) c') :
      CallSpec env e c ⟨(c'.commitProposed env block (blockHash env block)).1,
        acts ++ [(c'.commitProposed env block (blockHash env block)).2], []⟩
  | commitAdvance {acts : List ConsensusAction} {c' : TendermintConsensus} {block : Block} {now : ℕ}
      (moves : Moves env e (c.opened e) acts c') (hcommit : CanCommit env c' block)
      (hround : c'.roundState.round = c.roundState.round) (hgate : SameGate (c.attested e) c') :
      CallSpec env e c ⟨(c'.commitProposed env block (blockHash env block)).1.advanceRound env now,
        acts ++ [(c'.commitProposed env block (blockHash env block)).2], []⟩
  | advance {acts : List ConsensusAction} {c' : TendermintConsensus} {now : ℕ}
      (moves : Moves env e (c.opened e) acts c')
      (hround : c'.roundState.round = c.roundState.round) :
      CallSpec env e c ⟨c'.advanceRound env now, acts, []⟩
  | slash {acts : List ConsensusAction} {c' : TendermintConsensus} {vid : ℕ}
      (moves : Moves env e (c.opened e) [] c') (hconflict : Conflict env e c' vid)
      (hacts : ∀ a ∈ acts, ∃ amount, a = .slashValidator vid amount .equivocation) :
      CallSpec env e c
        ⟨(c'.sanovSlashEquivocation env vid sanovEquivocationWindow).1, acts, [vid]⟩
  | committed {input : CommitInput} (he : e = .committed input) :
      CallSpec env e c ⟨c.onBlockCommitted env input, [], []⟩

namespace Moves

variable {env : Env} {e : Event} {c c₁ c₂ : TendermintConsensus}
  {a a₁ a₂ : List ConsensusAction}

lemma single (h : Move env e c a c₁) : Moves env e c a c₁ := by
  simpa using step h (refl c₁)

lemma trans (h₁ : Moves env e c a₁ c₁) (h₂ : Moves env e c₁ a₂ c₂) :
    Moves env e c (a₁ ++ a₂) c₂ := by
  induction h₁ with
  | refl => exact h₂
  | step move _ ih =>
    rw [List.append_assoc]
    exact step move (ih h₂)

end Moves

namespace TendermintConsensus

variable (env : Env) (e : Event) (c : TendermintConsensus)

/-! ### Ticks -/

lemma timedOut_of_phaseStart {c : TendermintConsensus} {now : ℕ}
    (h : c.roundState.phaseStart = now) (timeout : ℕ) : c.timedOut timeout now = false := by
  simp [timedOut, h]

lemma auxiliary_keyAnnounce : ∀ a ∈ c.announceKey env, a.Auxiliary := by
  intro a ha
  simp only [announceKey] at ha
  split_ifs at ha
  · simp only [makeKeyAnnounce, List.mem_map, Option.mem_toList, Option.map_eq_some_iff] at ha
    obtain ⟨-, ⟨sk, -, rfl⟩, rfl⟩ := ha
    exact .keyAnnounce _ _ _ _
  · simp at ha

lemma tickPropose_moves (input : TickInput) (he : e = .tick input)
    (hphase : c.roundState.phase = .propose) :
    Moves env e c (c.tickPropose env input).2 (c.tickPropose env input).1 := by
  simp only [tickPropose]
  by_cases hpropose : (!c.draining && c.amIProposer env && c.roundState.proposedBlock.isNone) = true
  · -- the new phase has just started, so it has not timed out
    have hstart : (c.propose env input).1.roundState.phaseStart = input.now := rfl
    rw [if_pos hpropose, timedOut_of_phaseStart hstart]
    simp only [Bool.and_eq_true, Option.isNone_iff_eq_none] at hpropose
    exact .single (.propose he hphase hpropose.2 hpropose.1.2)
  · rw [if_neg hpropose]
    cases c.timedOut c.proposeTimeout input.now with
    | true => exact .single (.proposeTimedOut hphase)
    | false => exact .refl c

variable {c₀ : TendermintConsensus}

lemma tickPrevote_spec (now : ℕ) {acts : List ConsensusAction}
    (moves : Moves env e (c₀.opened e) acts c) (hphase : c.roundState.phase = .prevote) :
    CallSpec env e c₀ ⟨(c.tickPrevote env now).1, acts ++ (c.tickPrevote env now).2, []⟩ := by
  simp only [tickPrevote]
  cases hquorum : c.checkPrevoteQuorum with
  | some hash =>
    have hstart : (c.precommitOnQuorum env hash now).1.roundState.phaseStart = now := by
      simp only [precommitOnQuorum]
      split_ifs <;> rfl
    simpa [timedOut_of_phaseStart hstart] using CallSpec.precommit moves hphase hquorum
  | none =>
    split_ifs
    · exact .stay (by simpa using moves.trans (.single (.prevoteTimedOut hphase)))
    · exact .stay (by simpa using moves)

/-- The commit attempt either commits, or drops the proposed block, or does nothing. -/
lemma tryCommit_cases :
    (∃ block, CanCommit env c block ∧
      c.tryCommit env = ((c.commitProposed env block (blockHash env block)).1,
        [(c.commitProposed env block (blockHash env block)).2], false)) ∨
    Moves env e c (c.tryCommit env).2.1 (c.tryCommit env).1 ∧
      (c.tryCommit env).1.roundState.round = c.roundState.round := by
  simp only [tryCommit]
  split
  · rename_i hash block hquorum hblock
    split_ifs with hne hgate
    · refine .inr ⟨?_, rfl⟩
      have hsay : ∀ a ∈ [ConsensusAction.requestSync c.height (c.height + 1)], a.Auxiliary := by
        simpa using ConsensusAction.Auxiliary.requestSync _ _
      exact .step .dropProposed (.single (.say hsay))
    · rw [not_not] at hne
      subst hne
      exact .inl ⟨block, ⟨hquorum, hblock, hgate⟩, rfl⟩
    · exact .inr ⟨.refl c, rfl⟩
  · exact .inr ⟨.refl c, rfl⟩

/-- A round that was just entered has not timed out. -/
lemma timedOut_advanceRound (timeout now : ℕ) :
    (c.advanceRound env now).timedOut timeout now = false :=
  timedOut_of_phaseStart rfl timeout

lemma tickPrecommit_spec (now : ℕ) {acts : List ConsensusAction}
    (moves : Moves env e (c₀.opened e) acts c) (hround : c.roundState.round = c₀.roundState.round)
    (hgate : SameGate (c₀.attested e) c) :
    CallSpec env e c₀ ⟨(c.tickPrecommit env now).1, acts ++ (c.tickPrecommit env now).2, []⟩ := by
  simp only [tickPrecommit]
  rcases c.tryCommit_cases env e with ⟨block, hcommit, heq⟩ | ⟨hmoves, hkeep⟩
  · rw [heq]
    simp only [Bool.false_eq_true, if_false]
    split_ifs with hnil htimeout htimeout
    · rw [timedOut_advanceRound] at htimeout
      cases htimeout
    · exact .commitAdvance moves hcommit hround hgate
    · exact .commitAdvance moves hcommit hround hgate
    · exact .commit moves hcommit hgate
  · have hall := moves.trans hmoves
    split_ifs with hwait hnil htimeout htimeout
    · exact .stay hall
    · rw [timedOut_advanceRound] at htimeout
      cases htimeout
    · exact .advance hall (hkeep.trans hround)
    · exact .advance hall (hkeep.trans hround)
    · exact .stay hall

lemma tick_spec (input : TickInput) : CallSpec env (.tick input) c (c.tick env input) := by
  set c₁ := c.opened (.tick input) with hc₁
  have hmoves : Moves env (.tick input) c₁ (c₁.announceKey env) c₁ :=
    .single (.say (c₁.auxiliary_keyAnnounce env))
  show CallSpec env (.tick input) c ⟨(c₁.tickPhase env input).1,
    c₁.announceKey env ++ (c₁.tickPhase env input).2, []⟩
  simp only [tickPhase]
  cases hphase : c₁.roundState.phase with
  | propose => exact .stay (hmoves.trans (c₁.tickPropose_moves env _ input rfl hphase))
  | prevote => exact c₁.tickPrevote_spec env _ input.now hmoves hphase
  | precommit => exact c₁.tickPrecommit_spec env _ input.now hmoves rfl ⟨rfl, rfl, rfl⟩
  | commit => exact .stay (hmoves.trans (.single .dropProposed))

/-! ### Messages -/

variable (input : CallInput)

lemma onDaAttestation_spec (att : DAAttestation) :
    CallSpec env (.message input (.daAttestation att)) c
      ⟨(c.onDaAttestation env att).1, (c.onDaAttestation env att).2, []⟩ := by
  simp only [onDaAttestation]
  split_ifs with hreject hretry
  · exact .stay (.refl c)
  all_goals
    simp only [Bool.or_eq_true, Bool.not_eq_true', not_or, Bool.not_eq_false] at hreject
    have hstore : Moves env (.message input (.daAttestation att)) c [] (c.storeAttestation att) :=
      .single (.storeAttestation rfl hreject.1)
  · simp only [commitOnAttestation]
    split
    · rename_i hash block hquorum hblock
      split_ifs with h
      · obtain ⟨rfl, hgate⟩ := h
        exact .commit hstore ⟨hquorum, hblock, hgate⟩ ⟨rfl, rfl, rfl⟩
      · exact .stay hstore
    · exact .stay hstore
  · exact .stay hstore

lemma skipTo_moves (msg : ConsensusMessage) (he : e = .message input msg)
    (hheight : msg.height = c.height) : Moves env e c [] (c.skipTo msg.round input.now) := by
  simp only [skipTo]
  split_ifs with hround
  · exact .single (.skip he hheight hround)
  · exact .refl c

/-- A recorded value conflicts with `x`. -/
lemma exists_ne_of_any {α : Type} [BEq α] [LawfulBEq α] {o : Option α} {x : α}
    (h : o.any (· != x) = true) : ∃ y, o = some y ∧ y ≠ x := by
  cases o with
  | none => simp at h
  | some y => exact ⟨y, rfl, by simpa using h⟩

lemma onProposal_spec (block : Block) (vid : ℕ) (sig : Option Bytes)
    (moves : Moves env e (c₀.opened e) [] c)
    (he : e = .message input (.proposal c.height c.roundState.round block vid sig)) :
    CallSpec env e c₀ (c.onProposal env input c.height c.roundState.round block vid sig) := by
  simp only [onProposal]
  split_ifs with hadm hparent hsigned hseen hvalid
  · exact .stay moves
  · refine .stay (moves.trans (.single (.say ?_)))
    simpa using ConsensusAction.Auxiliary.requestSync _ _
  · exact .stay moves
  all_goals
    simp at hsigned
  · obtain ⟨seen, hlookup, hne⟩ := exists_ne_of_any hseen
    exact .slash moves (.proposal he hsigned.2 hlookup hne) (by simp)
  · have hrecord := Move.recordProposal he hsigned.2
    set c₁ := c.recordProposal c.height c.roundState.round vid (blockHash env block) with hc₁
    have he₁ : e = .message input (.proposal c₁.height c₁.roundState.round block vid sig) := by
      rw [he, hc₁]
      simp only [recordProposal]
      split <;> rfl
    refine .stay (moves.trans (.step hrecord ?_))
    simp only [acceptProposal]
    split_ifs with hvoted
    · exact .single (.adoptBlock he₁)
    · exact .step (.adoptBlock he₁) (.single (.voteOnProposal rfl (by simpa using hvoted)))
  · exact .stay (moves.trans (.single (.recordProposal he hsigned.2)))

lemma onPrevote_spec (now : ℕ) (hash : Option Hash) (vid : ℕ)
    (sig : Option Bytes) (moves : Moves env e (c₀.opened e) [] c)
    (he : e = .message input (.prevote c.height c.roundState.round hash vid sig)) :
    CallSpec env e c₀ (c.onPrevote env now c.height c.roundState.round hash vid sig) := by
  simp only [onPrevote]
  split_ifs with hslot hauth hseen
  · exact .stay moves
  · exact .stay moves
  · obtain ⟨seen, hlookup, hne⟩ := exists_ne_of_any hseen
    exact .slash moves (.prevote he (by simpa using hauth) hlookup hne) (by simp)
  · have hrecord := moves.trans (.single (.recordPrevote he (by simpa using hauth)))
    split
    · rename_i hphase hquorum
      exact .precommit hrecord hphase hquorum
    · exact .stay hrecord

lemma onPrecommit_spec (hash : Option Hash) (vid : ℕ) (sig : Option Bytes)
    (moves : Moves env e (c₀.opened e) [] c) (hgate : SameGate c₀ c)
    (he : e = .message input (.precommit c.height c.roundState.round hash vid sig)) :
    CallSpec env e c₀ (c.onPrecommit env c.height c.roundState.round hash vid sig) := by
  simp only [onPrecommit]
  split_ifs with hslot hauth hseen
  · exact .stay moves
  · exact .stay moves
  · obtain ⟨seen, hlookup, hne⟩ := exists_ne_of_any hseen
    exact .slash moves (.precommit he (by simpa using hauth) hlookup hne) (by simp)
  · have hrecord := moves.trans (.single (.recordPrecommit he (by simpa using hauth)))
    rcases (c.recordPrecommit vid hash sig).tryCommit_cases env e with
      ⟨block, hcommit, heq⟩ | ⟨h, -⟩
    · rw [heq]
      subst he
      exact .commit hrecord hcommit ⟨hgate.1, hgate.2, hgate.3⟩
    · exact .stay (hrecord.trans h)

lemma auxiliary_onFutureHeight (height : ℕ) : ∀ a ∈ c.onFutureHeight height, a.Auxiliary := by
  intro a ha
  simp only [onFutureHeight] at ha
  split_ifs at ha
  · rw [List.mem_singleton] at ha
    exact ha ▸ .requestSync _ _
  · simp at ha

/-- After skipping, the node is in the round of the message. -/
lemma skipTo_round {round now : ℕ} (h : ¬ round < c.roundState.round) :
    (c.skipTo round now).roundState.round = round := by
  simp only [skipTo]
  split_ifs with hlt
  · rfl
  · omega

@[simp] lemma skipTo_height (round now : ℕ) : (c.skipTo round now).height = c.height := by
  simp only [skipTo]
  split_ifs <;> rfl

/-- A message that passes the filters is handled in its own height and round. -/
lemma inSlot_spec {msg : ConsensusMessage} {height round : ℕ}
    (hheight : msg.height = height) (hround : msg.round = round)
    {handler : TendermintConsensus → Outcome}
    (hhandler : ∀ c' : TendermintConsensus, Moves env (.message input msg) c [] c' →
      height = c'.height → round = c'.roundState.round → SameGate c c' →
      CallSpec env (.message input msg) c (handler c')) :
    CallSpec env (.message input msg) c (c.inSlot height round input.now handler) := by
  subst hheight hround
  simp only [inSlot]
  split_ifs with hold hfuture hround
  · exact .stay (.refl c)
  · exact .stay (.single (.say (c.auxiliary_onFutureHeight msg.height)))
  · exact .stay (.refl c)
  · have hheight : msg.height = c.height := by omega
    apply hhandler
    · exact c.skipTo_moves env _ input msg rfl hheight
    · rw [skipTo_height, hheight]
    · rw [skipTo_round _ hround]
    · simp only [skipTo]
      split_ifs <;> exact ⟨rfl, rfl, rfl⟩

lemma onMessage_spec (msg : ConsensusMessage) :
    CallSpec env (.message input msg) c (c.onMessage env input msg) := by
  cases msg with
  | keyAnnounce vid pk pop sig =>
    simp only [onMessage, onKeyAnnounce]
    split_ifs with hadmitted
    · exact .stay (.single (.registerKey rfl hadmitted))
    · exact .stay (.refl c)
  | daAttestation att => exact c.onDaAttestation_spec env input att
  | oracleVote payload => exact .stay (.refl c)
  | proposal height round block vid sig =>
    rw [onMessage]
    apply c.inSlot_spec env input rfl rfl
    rintro c' moves rfl rfl -
    exact c'.onProposal_spec env _ input block vid sig moves rfl
  | prevote height round hash vid sig =>
    rw [onMessage]
    apply c.inSlot_spec env input rfl rfl
    rintro c' moves rfl rfl -
    exact c'.onPrevote_spec env _ input input.now hash vid sig moves rfl
  | precommit height round hash vid sig =>
    rw [onMessage]
    apply c.inSlot_spec env input rfl rfl
    rintro c' moves rfl rfl hgate
    exact c'.onPrecommit_spec env _ input hash vid sig moves hgate rfl

/-- Every call is a sequence of moves with at most one closing move. -/
theorem handle_spec : CallSpec env e c (c.handle env e) := by
  cases e with
  | tick input => exact c.tick_spec env input
  | message input msg => exact c.onMessage_spec env input msg
  | committed input => exact .committed rfl

/-! ### What calls leave alone -/

lemma recordProposal_eq (height round vid : ℕ) (hash : Hash) :
    c.recordProposal height round vid hash =
      { c with proposalsSeen := (c.recordProposal height round vid hash).proposalsSeen } := by
  simp only [recordProposal]
  split <;> rfl

lemma voteOnProposal_eq (block : Block) (now : ℕ) :
    (c.voteOnProposal env block now).1 =
      { (c.castPrevote (c.voteHash env (blockHash env block))).enterPhase .prevote now with
        daBlockProposers := (c.voteOnProposal env block now).1.daBlockProposers } := by
  simp only [voteOnProposal, recordProducer]
  split <;> rfl

lemma lockOn_eq (hash : Option Hash) :
    ∃ block round, c.lockOn env hash = { c with lockedBlock := block, lockedRound := round } := by
  simp only [lockOn]
  split
  · split_ifs
    · exact ⟨_, _, rfl⟩
    · exact ⟨c.lockedBlock, c.lockedRound, rfl⟩
  · exact ⟨c.lockedBlock, c.lockedRound, rfl⟩

lemma sanovSlashEquivocation_eq (vid window : ℕ) :
    ∃ vs, (c.sanovSlashEquivocation env vid window).1 = { c with validatorSet := vs } ∧
      c.validatorSet.SlashedTo vs ∧ ∀ id, id ≠ vid → vs.get id = c.validatorSet.get id := by
  simp only [sanovSlashEquivocation]
  split
  · exact ⟨c.validatorSet, rfl, .refl _, fun _ _ => rfl⟩
  · split_ifs
    · exact ⟨c.validatorSet, rfl, .refl _, fun _ _ => rfl⟩
    · exact ⟨_, rfl, ValidatorSet.slashedTo_slashWithAmount _ _ _ _, fun id hne =>
        ValidatorSet.get_slashWithAmount_of_ne _ hne _ _⟩

lemma sanovSlashDowntime_eq (vid missed window : ℕ) :
    ∃ vs, c.sanovSlashDowntime env vid missed window = { c with validatorSet := vs } ∧
      c.validatorSet.SlashedTo vs := by
  simp only [sanovSlashDowntime]
  split
  · exact ⟨c.validatorSet, rfl, .refl _⟩
  · split
    · exact ⟨c.validatorSet, rfl, .refl _⟩
    · split_ifs
      · exact ⟨c.validatorSet, rfl, .refl _⟩
      · exact ⟨_, rfl, ValidatorSet.slashedTo_slashWithAmount _ _ _ _⟩

lemma countMissedProposal_eq :
    ∃ vs misses, c.countMissedProposal env =
      { c with validatorSet := vs, missedProposals := misses } ∧ c.validatorSet.SlashedTo vs := by
  simp only [countMissedProposal]
  split
  · split_ifs
    · obtain ⟨vs, hvs, hslash⟩ := c.sanovSlashDowntime_eq env _ _ _
      rw [hvs]
      exact ⟨vs, _, rfl, hslash⟩
    · exact ⟨c.validatorSet, _, rfl, .refl _⟩
  · exact ⟨c.validatorSet, c.missedProposals, rfl, .refl _⟩

lemma countMissedVote_eq (vid : ℕ) :
    ∃ vs misses, c.countMissedVote env vid =
      { c with validatorSet := vs, missedVotes := misses } ∧ c.validatorSet.SlashedTo vs := by
  simp only [countMissedVote]
  split_ifs
  · obtain ⟨vs, hvs, hslash⟩ := c.sanovSlashDowntime_eq env vid _ _
    rw [hvs]
    exact ⟨vs, _, rfl, hslash⟩
  · exact ⟨c.validatorSet, _, rfl, .refl _⟩
  · exact ⟨c.validatorSet, _, rfl, .refl _⟩

lemma foldl_countMissedVote_eq (vids : List ℕ) :
    ∃ vs misses, vids.foldl (fun c vid => c.countMissedVote env vid) c =
      { c with validatorSet := vs, missedVotes := misses } ∧ c.validatorSet.SlashedTo vs := by
  induction vids generalizing c with
  | nil => exact ⟨c.validatorSet, c.missedVotes, rfl, .refl _⟩
  | cons vid vids ih =>
    obtain ⟨vs, misses, hone, hslash⟩ := c.countMissedVote_eq env vid
    obtain ⟨vs', misses', hrest, hslash'⟩ := ih (c.countMissedVote env vid)
    rw [hone] at hslash'
    refine ⟨vs', misses', ?_, hslash.trans hslash'⟩
    rw [List.foldl_cons, hrest, hone]

/-- Round entered by `advanceRound`. -/
def nextRound : ℕ :=
  if maxRoundsPerHeight ≤ (c.roundState.round + 1) % 2 ^ 32 then 0
  else (c.roundState.round + 1) % 2 ^ 32

/-- The next round is one higher, or the counter starts again from a lower round. -/
lemma nextRound_cases :
    c.nextRound < c.roundState.round ∨ c.nextRound = c.roundState.round + 1 := by
  rw [nextRound, maxRoundsPerHeight]
  split
  · omega
  · omega

/-- Advancing the round changes validators and miss counters, and starts a fresh round. -/
lemma advanceRound_eq (now : ℕ) :
    ∃ vs missedProposals missedVotes,
      c.advanceRound env now = enterRound { c with
          validatorSet := vs
          missedProposals := missedProposals
          missedVotes := missedVotes } c.nextRound now ∧
      c.validatorSet.SlashedTo vs := by
  obtain ⟨vs, missedProposals, h₁, hslash⟩ := c.countMissedProposal_eq env
  obtain ⟨vs', missedVotes, h₂, hslash'⟩ := (c.countMissedProposal env).foldl_countMissedVote_eq env
    ((c.countMissedProposal env).validatorSet.active.map (·.id))
  rw [h₁] at hslash'
  refine ⟨vs', missedProposals, missedVotes, ?_, hslash.trans hslash'⟩
  simp only [advanceRound, detectDowntime, nextRound, h₂]
  rw [h₁]

lemma daAttestations_advanceRound (now : ℕ) :
    (c.advanceRound env now).daAttestations = c.daAttestations := by
  obtain ⟨vs, missedProposals, missedVotes, heq, -⟩ := c.advanceRound_eq env now
  rw [heq]
  rfl

lemma height_advanceRound (now : ℕ) : (c.advanceRound env now).height = c.height := by
  obtain ⟨vs, missedProposals, missedVotes, heq, -⟩ := c.advanceRound_eq env now
  rw [heq]
  rfl

/-- A block commit starts a fresh round of the next height, without locks. -/
lemma onBlockCommitted_eq (input : CommitInput) :
    ∃ c' : TendermintConsensus, c.onBlockCommitted env input = c'.enterRound 0 input.now ∧
      c'.myId = c.myId ∧ c'.chainId = c.chainId ∧ c'.blsKeypair = c.blsKeypair ∧
      c'.byzantineDoublePrecommit = c.byzantineDoublePrecommit ∧ c'.height = c.height + 1 ∧
      c'.proposalsSeen = c.retainProposals (c.height + 1 - 10) ∧
      c'.daAttestations = c.daAttestations := by
  simp only [onBlockCommitted]
  split
  · exact ⟨_, rfl, rfl, rfl, rfl, rfl, rfl, rfl, rfl⟩
  · exact ⟨_, rfl, rfl, rfl, rfl, rfl, rfl, rfl, rfl⟩

end TendermintConsensus

/-- Fields that only a block commit or the operator changes. -/
structure SameNode (c c' : TendermintConsensus) : Prop where
  myId : c'.myId = c.myId
  chainId : c'.chainId = c.chainId
  height : c'.height = c.height
  blsKeypair : c'.blsKeypair = c.blsKeypair
  byzantineDoublePrecommit : c'.byzantineDoublePrecommit = c.byzantineDoublePrecommit
  smallClusterDaMode : c'.smallClusterDaMode = c.smallClusterDaMode
  daEnforcementHeight : c'.daEnforcementHeight = c.daEnforcementHeight

lemma SameNode.refl (c : TendermintConsensus) : SameNode c c := ⟨rfl, rfl, rfl, rfl, rfl, rfl, rfl⟩

lemma SameNode.trans {c c₁ c₂ : TendermintConsensus} (h₁ : SameNode c c₁) (h₂ : SameNode c₁ c₂) :
    SameNode c c₂ :=
  ⟨h₂.1.trans h₁.1, h₂.2.trans h₁.2, h₂.3.trans h₁.3, h₂.4.trans h₁.4, h₂.5.trans h₁.5,
    h₂.6.trans h₁.6, h₂.7.trans h₁.7⟩

def Event.IsKeyAnnounce (e : Event) : Prop :=
  ∃ input vid pk pop sig, e = .message input (.keyAnnounce vid pk pop sig)

variable {env : Env} {e : Event} {c c' : TendermintConsensus} {acts : List ConsensusAction}

section

variable (h : Move env e c acts c')

include h

/-- Moves keep the node and the lock, and only a key announcement changes the validator set. -/
lemma Move.frame :
    SameNode c c' ∧ (c'.lockedBlock = c.lockedBlock ∧ c'.lockedRound = c.lockedRound) ∧
      (c'.validatorSet = c.validatorSet ∨
        e.IsKeyAnnounce ∧ ∃ vid pk pop, c' = c.registerKey vid pk pop) := by
  cases h with
  | registerKey he =>
    exact ⟨⟨rfl, rfl, rfl, rfl, rfl, rfl, rfl⟩, ⟨rfl, rfl⟩,
      .inr ⟨⟨_, _, _, _, _, he⟩, _, _, _, rfl⟩⟩
  | say | propose | dropProposed | storeAttestation | skip | adoptBlock | recordPrevote
  | recordPrecommit => exact ⟨⟨rfl, rfl, rfl, rfl, rfl, rfl, rfl⟩, ⟨rfl, rfl⟩, .inl rfl⟩
  | proposeTimedOut =>
    simp only [TendermintConsensus.proposeTimedOut]
    split_ifs <;> exact ⟨⟨rfl, rfl, rfl, rfl, rfl, rfl, rfl⟩, ⟨rfl, rfl⟩, .inl rfl⟩
  | prevoteTimedOut =>
    simp only [TendermintConsensus.prevoteTimedOut]
    split_ifs <;> exact ⟨⟨rfl, rfl, rfl, rfl, rfl, rfl, rfl⟩, ⟨rfl, rfl⟩, .inl rfl⟩
  | recordProposal =>
    rw [c.recordProposal_eq]
    exact ⟨⟨rfl, rfl, rfl, rfl, rfl, rfl, rfl⟩, ⟨rfl, rfl⟩, .inl rfl⟩
  | voteOnProposal =>
    rw [c.voteOnProposal_eq]
    exact ⟨⟨rfl, rfl, rfl, rfl, rfl, rfl, rfl⟩, ⟨rfl, rfl⟩, .inl rfl⟩

lemma Move.sameNode : SameNode c c' := h.frame.1

lemma Move.lock_eq :
    c'.lockedBlock = c.lockedBlock ∧ c'.lockedRound = c.lockedRound := h.frame.2.1

lemma Move.validatorSet_eq (hkey : ¬ e.IsKeyAnnounce) :
    c'.validatorSet = c.validatorSet := h.frame.2.2.resolve_right fun h => hkey h.1

end

lemma Moves.validatorSet_eq (h : Moves env e c acts c') (hkey : ¬ e.IsKeyAnnounce) :
    c'.validatorSet = c.validatorSet := by
  induction h with
  | refl => rfl
  | step move _ ih => rw [ih, move.validatorSet_eq hkey]

lemma Moves.sameNode (h : Moves env e c acts c') : SameNode c c' := by
  induction h with
  | refl c => exact .refl c
  | step move _ ih => exact move.sameNode.trans ih

/-- What every move keeps, moves keep. -/
lemma Moves.keeps {P : TendermintConsensus → Prop} (h : Moves env e c acts c')
    (next : ∀ {c₁ acts₁ c₂ acts₂}, Moves env e c acts₁ c₁ → Move env e c₁ acts₂ c₂ → P c₁ → P c₂)
    (hc : P c) : P c' := by
  induction h with
  | refl => exact hc
  | step move _ ih =>
    exact ih (fun before => next (.step move before)) (next (.refl _) move hc)

/-! ### Commits -/

/-- No move commits a block. -/
lemma Move.commitBlock_notMem (h : Move env e c acts c') (block : Block) :
    .commitBlock block ∉ acts := by
  cases h with
  | say haux =>
    intro hmem
    cases haux _ hmem
  | propose => simp [TendermintConsensus.propose]
  | proposeTimedOut =>
    simp only [TendermintConsensus.proposeTimedOut]
    split_ifs <;> simp
  | prevoteTimedOut =>
    simp only [TendermintConsensus.prevoteTimedOut]
    split_ifs <;> simp
  | voteOnProposal =>
    simp only [TendermintConsensus.voteOnProposal]
    split_ifs <;> simp
  | dropProposed | registerKey | storeAttestation | skip | recordProposal | adoptBlock
  | recordPrevote | recordPrecommit => simp

lemma Moves.commitBlock_notMem (h : Moves env e c acts c') (block : Block) :
    .commitBlock block ∉ acts := by
  induction h with
  | refl => simp
  | step move _ ih => simp [move.commitBlock_notMem block, ih]

/-- A committed block was the proposed one, with a quorum of precommits and the gate open. -/
theorem exists_canCommit_of_mem {b : Block} (h : .commitBlock b ∈ (c.handle env e).actions) :
    ∃ acts c' block, Moves env e (c.opened e) acts c' ∧ CanCommit env c' block ∧
      .commitBlock b = (c'.commitProposed env block (blockHash env block)).2 ∧
      (c.handle env e).actions = acts ++ [.commitBlock b] ∧
      SameGate (c.attested e) c' := by
  have hspec := c.handle_spec env e
  generalize c.handle env e = outcome at hspec h ⊢
  cases hspec with
  | stay moves | advance moves => exact absurd h (moves.commitBlock_notMem b)
  | @precommit acts c' hash now moves =>
    have hnot : .commitBlock b ∉ (c'.precommitOnQuorum env hash now).2 := by
      simp only [precommitOnQuorum]
      split_ifs
      · simp
      · cases hash <;> simp [byzantinePrecommit]
    exact absurd h (by simp [moves.commitBlock_notMem b, hnot])
  | @commit acts c' block moves hcommit hgate
  | @commitAdvance acts c' block _ moves hcommit _ hgate =>
    have hb := List.mem_singleton.mp
      ((List.mem_append.mp h).resolve_left (moves.commitBlock_notMem b))
    exact ⟨acts, c', block, moves, hcommit, hb, by rw [hb], hgate⟩
  | slash moves hconflict hacts =>
    obtain ⟨amount, hslash⟩ := hacts _ h
    cases hslash
  | committed => simp at h

end EvaporChain
