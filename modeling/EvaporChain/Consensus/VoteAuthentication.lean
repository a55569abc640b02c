import EvaporChain.Consensus.Moves
import EvaporChain.Core.Run

/-!
# Where the votes a node counts come from

Along every run of a node, each vote it holds for another validator was received for the slot
the node is in, from a member of the validator set, and carried a verifying signature when that
member had a registered key. Without a key the vote of a member is counted unsigned, also where
others have keys.
-/

namespace EvaporChain

open Core

namespace TendermintConsensus

/-- One call into the engine as a transition. -/
def step (env : Env) (c : TendermintConsensus) (e : Event) : TendermintConsensus :=
  (c.handle env e).node

/-- The history `h` has a vote of `vid` for `hash` in the slot of `c`, sent by a member of the
set of that time. If the member had a key, the vote's signature verifies under it. -/
def VoteReceived (env : Env) (h : List (TendermintConsensus × Event))
    (vote : ℕ → ℕ → Option Hash → ℕ → Option Bytes → ConsensusMessage) (phase : VotePhase)
    (c : TendermintConsensus) (vid : ℕ) (hash : Option Hash) : Prop :=
  ∃ x ∈ h, ∃ input sig v,
    x.2 = .message input (vote c.height c.roundState.round hash vid sig) ∧
    x.1.validatorSet.get vid = some v ∧
    ∀ pk, v.blsPublicKey = some pk → ∃ s, sig = some s ∧
      env.bls.verify (blsVoteMessage c.chainId c.height c.roundState.round hash phase) s pk = true

/-- Every vote of another validator in the tables of `c` was received. -/
def VotesReceived (env : Env) (h : List (TendermintConsensus × Event)) (c : TendermintConsensus) :
    Prop :=
  ∀ vid, vid ≠ c.myId → ∀ hash,
    (c.roundState.prevotes.lookup vid = some hash →
      VoteReceived env h .prevote .prevote c vid hash) ∧
    (c.roundState.precommits.lookup vid = some hash →
      VoteReceived env h .precommit .precommit c vid hash)

variable {env : Env} {h : List (TendermintConsensus × Event)} {c c' : TendermintConsensus}

/-- The votes of others stay received when neither the slot nor their entries change. -/
lemma VotesReceived.of_same_slot (hc : VotesReceived env h c) (hsame : SameNode c c')
    (hround : c'.roundState.round = c.roundState.round) (hprevotes : ∀ vid, vid ≠ c.myId →
      c'.roundState.prevotes.lookup vid = c.roundState.prevotes.lookup vid)
    (hprecommits : ∀ vid, vid ≠ c.myId →
      c'.roundState.precommits.lookup vid = c.roundState.precommits.lookup vid) :
    VotesReceived env h c' := by
  intro vid hvid hash
  rw [hsame.myId] at hvid
  rw [hprevotes vid hvid, hprecommits vid hvid, VoteReceived, VoteReceived, hsame.height,
    hsame.chainId, hround]
  exact hc vid hvid hash

/-- A fresh round holds no votes. -/
lemma votesReceived_enterRound (c : TendermintConsensus) (round now : ℕ) :
    VotesReceived env h (c.enterRound round now) := by
  intro vid _ hash
  simp [enterRound, setTimeoutsForRound, RoundState.new]

lemma VotesReceived.mono {h' : List (TendermintConsensus × Event)} (hc : VotesReceived env h c)
    (hsub : h ⊆ h') : VotesReceived env h' c := by
  intro vid hvid hash
  refine ⟨fun hlookup => ?_, fun hlookup => ?_⟩
  · obtain ⟨x, hx, hrest⟩ := (hc vid hvid hash).1 hlookup
    exact ⟨x, hsub hx, hrest⟩
  · obtain ⟨x, hx, hrest⟩ := (hc vid hvid hash).2 hlookup
    exact ⟨x, hsub hx, hrest⟩

variable {hash : Option Hash} {sig : Option Bytes} {t : TendermintConsensus}

/-- A vote that passes the checks was sent by a member, and signed if the member has a key. -/
lemma voteAuthentic_iff {round : ℕ} {vid : ℕ} {phase : VotePhase} :
    c.voteAuthentic env round hash vid sig phase = true ↔ ∃ v, c.validatorSet.get vid = some v ∧
        (v.blsPublicKey = none → c.validatorSet.hasBlsKeys = false) ∧
        ∀ pk, v.blsPublicKey = some pk → ∃ s, sig = some s ∧
          env.bls.verify (blsVoteMessage c.chainId c.height round hash phase) s pk = true := by
  simp only [voteAuthentic]
  cases hget : c.validatorSet.get vid with
  | none => simp
  | some v =>
    cases hkey : v.blsPublicKey with
    | none => simp [hkey]
    | some pk => cases sig <;> simp [hkey]

lemma votesReceived_of_move {e : Event} {acts : List ConsensusAction} (hmem : (t, e) ∈ h)
    (hset : ¬ e.IsKeyAnnounce → c.validatorSet = (t.opened e).validatorSet)
    (hmove : Move env e c acts c') (hc : VotesReceived env h c) : VotesReceived env h c' := by
  have hsame := hmove.sameNode
  cases hmove with
  | skip => exact votesReceived_enterRound c _ _
  | @recordPrevote input hash vid sig he hauth =>
    subst he
    obtain ⟨v, hget, -, hsig⟩ := voteAuthentic_iff.mp hauth
    rw [hset (by simp [Event.IsKeyAnnounce])] at hget
    refine fun w hw hash' => ⟨fun hlookup => ?_, (hc w hw hash').2⟩
    simp only [recordPrevote, Dict.lookup_insert_apply] at hlookup
    split_ifs at hlookup with hwv
    · cases hlookup
      subst hwv
      exact ⟨_, hmem, input, sig, v, rfl, hget, hsig⟩
    · exact (hc w hw hash').1 hlookup
  | @recordPrecommit input hash vid sig he hauth =>
    subst he
    obtain ⟨v, hget, -, hsig⟩ := voteAuthentic_iff.mp hauth
    rw [hset (by simp [Event.IsKeyAnnounce])] at hget
    refine fun w hw hash' => ⟨(hc w hw hash').1, fun hlookup => ?_⟩
    simp only [recordPrecommit, Dict.lookup_insert_apply] at hlookup
    split_ifs at hlookup with hwv
    · cases hlookup
      subst hwv
      exact ⟨_, hmem, input, sig, v, rfl, hget, hsig⟩
    · exact (hc w hw hash').2 hlookup
  | say | dropProposed | registerKey | storeAttestation | adoptBlock =>
    exact hc.of_same_slot hsame rfl (fun _ _ => rfl) fun _ _ => rfl
  | propose =>
    exact hc.of_same_slot hsame rfl (fun _ hvid => AList.lookup_insert_ne hvid) fun _ _ => rfl
  | recordProposal =>
    rw [c.recordProposal_eq] at hsame ⊢
    exact hc.of_same_slot hsame rfl (fun _ _ => rfl) fun _ _ => rfl
  | proposeTimedOut =>
    simp only [proposeTimedOut] at hsame ⊢
    split_ifs at hsame ⊢
    · exact hc.of_same_slot hsame rfl (fun _ hvid => AList.lookup_insert_ne hvid) fun _ _ => rfl
    · exact hc.of_same_slot hsame rfl (fun _ _ => rfl) fun _ _ => rfl
  | prevoteTimedOut =>
    simp only [prevoteTimedOut] at hsame ⊢
    split_ifs at hsame ⊢
    · exact hc.of_same_slot hsame rfl (fun _ _ => rfl) fun _ _ => rfl
    · exact hc.of_same_slot hsame rfl (fun _ _ => rfl) fun _ hvid => AList.lookup_insert_ne hvid
  | voteOnProposal =>
    rw [c.voteOnProposal_eq] at hsame ⊢
    exact hc.of_same_slot hsame rfl (fun _ hvid => AList.lookup_insert_ne hvid) fun _ _ => rfl

lemma votesReceived_precommitOnQuorum (hash : Option Hash) (now : ℕ) (hc : VotesReceived env h c) :
    VotesReceived env h (c.precommitOnQuorum env hash now).1 := by
  simp only [precommitOnQuorum]
  split_ifs
  · exact hc.of_same_slot ⟨rfl, rfl, rfl, rfl, rfl, rfl, rfl⟩ rfl (fun _ _ => rfl) fun _ _ => rfl
  · obtain ⟨block, round, hlock⟩ := c.lockOn_eq env hash
    rw [hlock]
    exact hc.of_same_slot ⟨rfl, rfl, rfl, rfl, rfl, rfl, rfl⟩ rfl (fun _ _ => rfl)
      fun _ hvid => AList.lookup_insert_ne hvid

/-- One call keeps the origin of the votes. -/
lemma votesReceived_step {e : Event} (hc : VotesReceived env h c) :
    VotesReceived env (h ++ [(c, e)]) (c.step env e) := by
  have hmem : (c, e) ∈ h ++ [(c, e)] := by simp
  have hopened : VotesReceived env (h ++ [(c, e)]) (c.opened e) := by
    have hc' : VotesReceived env (h ++ [(c, e)]) c := hc.mono (List.subset_append_left _ _)
    cases e with
    | tick =>
      exact hc'.of_same_slot ⟨rfl, rfl, rfl, rfl, rfl, rfl, rfl⟩ rfl (fun _ _ => rfl) fun _ _ => rfl
    | message | committed => exact hc'
  have hmoves {acts : List ConsensusAction} {c' : TendermintConsensus}
      (moves : Moves env e (c.opened e) acts c') : VotesReceived env (h ++ [(c, e)]) c' :=
    moves.keeps (fun before => votesReceived_of_move hmem before.validatorSet_eq) hopened
  have hspec := handle_spec env e c
  rw [step]
  generalize c.handle env e = outcome at hspec ⊢
  cases hspec with
  | stay moves => exact hmoves moves
  | precommit moves => exact votesReceived_precommitOnQuorum _ _ (hmoves moves)
  | commit moves =>
    exact (hmoves moves).of_same_slot ⟨rfl, rfl, rfl, rfl, rfl, rfl, rfl⟩ rfl (fun _ _ => rfl)
      fun _ _ => rfl
  | commitAdvance | advance => exact votesReceived_enterRound _ _ _
  | @slash acts c' vid moves =>
    obtain ⟨vs, heq, -⟩ := c'.sanovSlashEquivocation_eq env vid sanovEquivocationWindow
    rw [heq]
    exact (hmoves moves).of_same_slot ⟨rfl, rfl, rfl, rfl, rfl, rfl, rfl⟩ rfl (fun _ _ => rfl)
      fun _ _ => rfl
  | @committed input =>
    exact votesReceived_enterRound _ _ _

/-- Along every run of a node that starts with empty tables, each vote of another validator that
the quorum checks add up was received for the current height and round. -/
lemma counted_votes_received (env : Env) (c : TendermintConsensus)
    (hprevotes : c.roundState.prevotes = ∅) (hprecommits : c.roundState.precommits = ∅)
    (es : List Event) : VotesReceived env (trace (step env) c es) (run (step env) c es) := by
  refine run_induction (step env) (P := fun c h => VotesReceived env h c) (G := fun _ _ => True)
    ?_ ?_ es fun _ _ => trivial
  · intro vid _ hash
    simp [hprevotes, hprecommits]
  · intro c h e hc _
    exact votesReceived_step hc

/-! ### Sets where everyone has a key -/

lemma keyed_refreshDelegatedStakes {vs : ValidatorSet} (h : vs.Keyed)
    (delegations : List (ℕ × ℕ)) : (vs.refreshDelegatedStakes delegations).Keyed := by
  rw [ValidatorSet.refreshDelegatedStakes]
  generalize vs.ids = ids
  induction ids generalizing vs with
  | nil => exact h
  | cons vid vids ih => exact ih (h.modify vid (fun _ => rfl) fun _ hkey => hkey)

lemma keyed_opened (h : c.validatorSet.Keyed) (e : Event) : (c.opened e).validatorSet.Keyed := by
  cases e with
  | message | committed => exact h
  | tick input => exact keyed_refreshDelegatedStakes h input.delegations

/-- Keys are neither lost nor forgotten, unless a commit brings in validators without. -/
lemma keyed_step {e : Event} (h : c.validatorSet.Keyed)
    (hcommit : ∀ input, e = .committed input → input.validatorSet.Keyed) :
    (c.step env e).validatorSet.Keyed := by
  have hmoves {acts : List ConsensusAction} {c' : TendermintConsensus}
      (moves : Moves env e (c.opened e) acts c') : c'.validatorSet.Keyed := by
    refine moves.keeps (P := fun c => c.validatorSet.Keyed) (fun _ move hkeyed => ?_)
      (keyed_opened h e)
    obtain hsame | ⟨-, vid, pk, pop, rfl⟩ := move.frame.2.2
    · rwa [hsame]
    · exact hkeyed.modify vid (fun _ => rfl) fun _ _ => rfl
  have hspec := handle_spec env e c
  rw [step]
  generalize c.handle env e = outcome at hspec ⊢
  cases hspec with
  | stay moves => exact hmoves moves
  | @commit acts c' block moves =>
    have hc' := hmoves moves
    exact hc'
  | @precommit acts c' hash now moves =>
    have hsame : (c'.precommitOnQuorum env hash now).1.validatorSet = c'.validatorSet := by
      simp only [precommitOnQuorum]
      split_ifs
      · rfl
      · obtain ⟨block, round, hlock⟩ := c'.lockOn_eq env hash
        rw [hlock]
        rfl
    rw [hsame]
    exact hmoves moves
  | @commitAdvance acts c' block now moves =>
    obtain ⟨vs, _, _, heq, hslash⟩ :=
      (c'.commitProposed env block (blockHash env block)).1.advanceRound_eq env now
    rw [heq]
    exact (hmoves moves).slashed hslash
  | @advance acts c' now moves =>
    obtain ⟨vs, _, _, heq, hslash⟩ := c'.advanceRound_eq env now
    rw [heq]
    exact (hmoves moves).slashed hslash
  | @slash acts c' vid moves =>
    obtain ⟨vs, heq, hslash, -⟩ := c'.sanovSlashEquivocation_eq env vid sanovEquivocationWindow
    rw [heq]
    exact (hmoves moves).slashed hslash
  | @committed input he => exact hcommit input he

/-- The history `h` has a vote of `vid` for `hash` in the slot of `c` whose signature verifies under
the key that was registered for `vid` at that time. -/
def VoteAuthenticated (env : Env) (h : List (TendermintConsensus × Event))
    (vote : ℕ → ℕ → Option Hash → ℕ → Option Bytes → ConsensusMessage) (phase : VotePhase)
    (c : TendermintConsensus) (vid : ℕ) (hash : Option Hash) : Prop :=
  ∃ x ∈ h, ∃ input sig pk,
    x.2 = .message input (vote c.height c.roundState.round hash vid (some sig)) ∧
    x.1.validatorSet.currentKey vid = some pk ∧
    env.bls.verify (blsVoteMessage c.chainId c.height c.roundState.round hash phase) sig pk = true

lemma VoteReceived.authenticated {vote : ℕ → ℕ → Option Hash → ℕ → Option Bytes → ConsensusMessage}
    {phase : VotePhase} {vid : ℕ} (hvote : VoteReceived env h vote phase c vid hash)
    (hkeyed : ∀ x ∈ h, x.1.validatorSet.Keyed) : VoteAuthenticated env h vote phase c vid hash := by
  obtain ⟨x, hx, input, sig, v, he, hget, hsig⟩ := hvote
  obtain ⟨pk, hpk⟩ := Option.isSome_iff_exists.mp (hkeyed x hx vid v hget)
  obtain ⟨s, rfl, hverify⟩ := hsig pk hpk
  exact ⟨x, hx, input, s, pk, he, by rw [ValidatorSet.currentKey, hget]; exact hpk, hverify⟩

/-- Every vote of another validator in the tables of `c` was authenticated. -/
def VotesAuthenticated (env : Env) (h : List (TendermintConsensus × Event))
    (c : TendermintConsensus) : Prop :=
  ∀ vid, vid ≠ c.myId → ∀ hash,
    (c.roundState.prevotes.lookup vid = some hash →
      VoteAuthenticated env h .prevote .prevote c vid hash) ∧
    (c.roundState.precommits.lookup vid = some hash →
      VoteAuthenticated env h .precommit .precommit c vid hash)

/-- As long as all validators have keys, those that commits bring in included, each vote of another
validator that the quorum checks add up came with a signature that verifies under the key
registered for it. -/
theorem counted_votes_authenticated (env : Env) (c : TendermintConsensus)
    (hprevotes : c.roundState.prevotes = ∅) (hprecommits : c.roundState.precommits = ∅)
    (hkeyed : c.validatorSet.Keyed) (es : List Event)
    (hcommits : ∀ input, .committed input ∈ es → input.validatorSet.Keyed) :
    VotesAuthenticated env (trace (step env) c es) (run (step env) c es) := by
  have hrun := run_induction (step env)
    (P := fun c h => c.validatorSet.Keyed ∧ ∀ x ∈ h, x.1.validatorSet.Keyed)
    (G := fun _ e => ∀ input, e = .committed input → input.validatorSet.Keyed) ⟨hkeyed, by simp⟩
    ?_ es ?_
  · have hreceived := counted_votes_received env c hprevotes hprecommits es
    exact fun vid hvid hash =>
      ⟨fun hlookup => ((hreceived vid hvid hash).1 hlookup).authenticated hrun.2,
        fun hlookup => ((hreceived vid hvid hash).2 hlookup).authenticated hrun.2⟩
  · rintro c h e ⟨hc, hh⟩ hcommit
    refine ⟨keyed_step hc hcommit, fun x hx => ?_⟩
    obtain hx | hx := List.mem_append.mp hx
    · exact hh x hx
    · rw [List.mem_singleton.mp hx]
      exact hc
  · rintro x hx input he
    exact hcommits input (he ▸ snd_mem_of_mem_trace _ hx)

/-- In a set where everyone has a key a signed prevote and a signed precommit are counted. -/
theorem counted_votes_authenticated_fourNode :
    let es := [Event.message (callAt 0) (signedPrevote 2 0 (some Hash.zero)),
      .message (callAt 0) (signedPrecommit 3 0 none)]
    let c := run (step transparentEnv) (fourNode 1) es
    c.roundState.prevotes.lookup 2 = some (some Hash.zero) ∧
    c.roundState.precommits.lookup 3 = some none ∧
    VotesAuthenticated transparentEnv (trace (step transparentEnv) (fourNode 1) es) c := by
  refine ⟨by decide +kernel, by decide +kernel, ?_⟩
  refine counted_votes_authenticated transparentEnv (fourNode 1) rfl rfl ?_ _ (by simp)
  intro id v hget
  have hall : ∀ v ∈ fourKeyed.validators, v.blsPublicKey.isSome := by decide
  exact hall v (List.mem_of_find?_eq_some hget)

def partlyKeyed : ValidatorSet where
  validators :=
    [ { id := 1, stake := 10, blsPublicKey := some [1] },
      { id := 2, stake := 10, blsPublicKey := some [2] }, { id := 3, stake := 100 } ]

def partlyKeyedNode : TendermintConsensus := .new 1 partlyKeyed ChainId.empty (some [1]) 0

/-- A prevote in the name of validator 3, without signature. -/
def unsignedPrevote : Event := .message (callAt 0) (.prevote 1 0 (some Hash.zero) 3 none)

/-- The unsigned prevote of a validator without key makes a quorum in a set where others have
keys. -/
theorem unsigned_vote_counted :
    let c := run (step transparentEnv) partlyKeyedNode [unsignedPrevote]
    c.roundState.prevotes.lookup 3 = some (some Hash.zero) ∧
    c.checkPrevoteQuorum = some (some Hash.zero) ∧
    ∀ x ∈ trace (step transparentEnv) partlyKeyedNode [unsignedPrevote],
      ∀ input height round hash sig,
        x.2 ≠ .message input (.prevote height round hash 3 (some sig)) := by
  refine ⟨by decide, by decide, ?_⟩
  intro x hx input height round hash sig
  simp only [trace, List.mem_singleton] at hx
  simp [hx, unsignedPrevote]

end TendermintConsensus

end EvaporChain
