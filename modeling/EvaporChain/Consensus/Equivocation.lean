import EvaporChain.Consensus.Network

/-!
# Honest validators and equivocation slashing

In a network in which every validator runs the engine, nobody is slashed for equivocation as
long as no call takes a node back to an earlier round. The reset to round 0 after
`maxRoundsPerHeight` rounds does that, and then an honest validator votes twice.
-/

namespace EvaporChain

open Core TendermintConsensus

namespace Network

/-- All nodes are at the start of a round, with no evidence about their height or later ones, and
nothing was sent. -/
structure Fresh (net : Network) : Prop where
  sent : net.sent = []
  myId : ∀ i, (net.nodes i).myId = i
  honest : ∀ i, (net.nodes i).byzantineDoublePrecommit = false
  round : ∀ i, ∃ round now, (net.nodes i).roundState = RoundState.new round now
  proposals : ∀ i height round, (net.nodes i).height ≤ height →
    (net.nodes i).proposalsSeen.lookup (height, round) = none

/-- A call delivers only what some node broadcast before. -/
def Delivers (net : Network) (call : ℕ × Event) : Prop :=
  match call.2 with
  | .message _ msg => msg ∈ net.sent
  | _ => True

instance (net : Network) (call : ℕ × Event) : Decidable (net.Delivers call) := by
  unfold Delivers
  split <;> infer_instance

end Network

lemma netInv_of_fresh (env : Env) {H : Set ℕ} {net : Network} (h : net.Fresh) :
    NetInv env H net := by
  refine ⟨fun i _ => ?_, by simp [VotesUnique, h.sent]⟩
  obtain ⟨round, now, hround⟩ := h.round i
  rw [h.sent]
  exact .of_new (h.myId i) (h.honest i) hround (h.proposals i)

/-- In every execution of honest nodes, with arbitrary loss, delay, duplication and reordering of
messages and arbitrary timer firings, in which no call takes a node back to an earlier round of
its height: no call slashes for equivocation, and nobody signs two different proposals, prevotes
or precommits for the same height and round. -/
theorem honest_never_slashed (env : Env) (net : Network) (hfresh : net.Fresh)
    (calls : List (ℕ × Event))
    (hdeliver : ∀ x ∈ trace (Network.step env) net calls, x.1.Delivers x.2)
    (hkeep : ∀ x ∈ trace (Network.step env) net calls,
      KeepsRound (x.1.nodes x.2.1) (x.1.outcome env x.2)) :
    (∀ x ∈ trace (Network.step env) net calls, (x.1.outcome env x.2).equivocationSlashes = []) ∧
      VotesUnique env (run (Network.step env) net calls).sent := by
  have hrun := run_induction (Network.step env)
    (P := fun net h => NetInv env Set.univ net ∧
      ∀ x ∈ h, (x.1.outcome env x.2).equivocationSlashes = [])
    (G := fun net call => net.Delivers call ∧ KeepsRound (net.nodes call.1) (net.outcome env call))
    ⟨netInv_of_fresh env hfresh, by simp⟩ ?_ calls fun x hx => ⟨hdeliver x hx, hkeep x hx⟩
  · exact ⟨hrun.2, hrun.1.unique⟩
  · rintro net h ⟨i, e⟩ ⟨hinv, hquiet⟩ ⟨hdel, hround⟩
    obtain ⟨hnext, hslash⟩ := hinv.step (Set.mem_univ i) (by
      rintro input msg vote rfl hvote - - -
      exact List.mem_filterMap.mpr ⟨msg, hdel, hvote⟩) hround
    refine ⟨hnext, fun x hx => ?_⟩
    rcases List.mem_append.mp hx with hx | hx
    · exact hquiet x hx
    · rw [List.mem_singleton] at hx
      subst hx
      exact List.eq_nil_iff_forall_not_mem.mpr fun vid hvid => hslash vid hvid (Set.mem_univ vid)

/-! ### The reset to round 0 -/

lemma fourNetwork_fresh : fourNetwork.Fresh where
  sent := rfl
  myId _ := rfl
  honest _ := rfl
  round _ := ⟨0, 0, rfl⟩
  proposals _ _ _ _ := rfl

def leaderProposal : ConsensusMessage :=
  (fourNode 4).proposalMessage transparentEnv
    ((fourNode 4).createProposal transparentEnv (tickAt 0 0))

/-- Validator 4 proposes in round 0. Validator 1 hears nothing, times out and prevotes nil, which
4 receives. After ten rounds of timeouts, 1 is back in round 0 and gets the proposal. -/
def resetCalls : List (ℕ × Event) :=
  [(4, .tick (tickAt 0 0)), (1, .tick (tickAt 100000 0)),
    (4, .message (callAt 0) (signedPrevote 1 0 none))] ++
  (List.range 29).map (fun k => (1, .tick (tickAt (100000 * (k + 2)) 0))) ++
  [(1, .message (callAt 3100000) leaderProposal)]

def secondPrevote : ℕ × Event := (4, .message (callAt 0) (signedPrevote 1 0 (some Hash.zero)))

/-- Validator 1 signs two prevotes for round 0, and validator 4 slashes it. -/
theorem honest_slashed_after_reset :
    fourNetwork.Fresh ∧
    (∀ x ∈ trace (Network.step transparentEnv) fourNetwork (resetCalls ++ [secondPrevote]),
      x.1.Delivers x.2) ∧
    ¬ VotesUnique transparentEnv (run (Network.step transparentEnv) fourNetwork resetCalls).sent ∧
    ((run (Network.step transparentEnv) fourNetwork resetCalls).outcome transparentEnv
      secondPrevote).equivocationSlashes = [1] := by
  refine ⟨fourNetwork_fresh, by decide +kernel, ?_, by decide +kernel⟩
  intro hunique
  have hnil : (⟨.prevote, 1, 0, none, 1⟩ : Vote) ∈ votes transparentEnv
      (run (Network.step transparentEnv) fourNetwork resetCalls).sent := by decide +kernel
  have hblock : (⟨.prevote, 1, 0, some Hash.zero, 1⟩ : Vote) ∈ votes transparentEnv
      (run (Network.step transparentEnv) fourNetwork resetCalls).sent := by decide +kernel
  have hsame := hunique _ hnil _ hblock rfl rfl rfl rfl
  cases hsame

/-- Validator 1 receives the proposal in time, and validator 4 its prevote. -/
def timelyCalls : List (ℕ × Event) :=
  [(4, .tick (tickAt 0 0)), (1, .message (callAt 0) leaderProposal), secondPrevote]

theorem honest_never_slashed_timely :
    (∀ x ∈ trace (Network.step transparentEnv) fourNetwork timelyCalls,
      (x.1.outcome transparentEnv x.2).equivocationSlashes = []) ∧
    VotesUnique transparentEnv (run (Network.step transparentEnv) fourNetwork timelyCalls).sent :=
  honest_never_slashed transparentEnv fourNetwork fourNetwork_fresh timelyCalls
    (by decide +kernel) (by decide +kernel)

/-! ### Byzantine validators -/

/-- A call at a validator of `H` that brings no vote forged in the name of another one and does not
take it back to an earlier round. -/
def Network.Unforged (env : Env) (H : Set ℕ) (net : Network) (call : ℕ × Event) : Prop :=
  call.1 ∈ H ∧ Genuine env H net.sent ((net.nodes call.1).opened call.2) call.2 ∧
    KeepsRound (net.nodes call.1) (net.outcome env call)

/-- Whatever other validators send, those in `H` are not slashed by each other, vote once per slot
and phase, and record of each other only what was cast. -/
theorem honest_among_byzantine (env : Env) (H : Set ℕ) (net : Network) (hfresh : net.Fresh)
    (calls : List (ℕ × Event))
    (hcalls : ∀ x ∈ trace (Network.step env) net calls, x.1.Unforged env H x.2) :
    NetInv env H (run (Network.step env) net calls) ∧ ∀ x ∈ trace (Network.step env) net calls,
      ∀ vid ∈ (x.1.outcome env x.2).equivocationSlashes, vid ∉ H := by
  refine run_induction (Network.step env) (G := Network.Unforged env H)
    (P := fun net past => NetInv env H net ∧
      ∀ x ∈ past, ∀ vid ∈ (x.1.outcome env x.2).equivocationSlashes, vid ∉ H)
    ⟨netInv_of_fresh env hfresh, by simp⟩ ?_ calls hcalls
  rintro net past ⟨i, e⟩ ⟨hinv, hpast⟩ ⟨hi, hgenuine, hkeep⟩
  obtain ⟨hnext, hslash⟩ := hinv.step hi hgenuine hkeep
  refine ⟨hnext, fun x hx => ?_⟩
  rcases List.mem_append.mp hx with hx | hx
  · exact hpast x hx
  · exact List.mem_singleton.mp hx ▸ hslash

/-- Validator 2 prevotes twice. -/
theorem honest_among_byzantine_two : NetInv transparentEnv {1} (run (Network.step transparentEnv)
    fourNetwork [(1, .message (callAt 0) (signedPrevote 2 0 none)),
      (1, .message (callAt 0) (signedPrevote 2 0 (some Hash.zero)))]) := by
  refine (honest_among_byzantine _ _ _ fourNetwork_fresh _ ?_).1
  simp only [trace, List.forall_mem_cons]
  refine ⟨⟨rfl, ?_, by decide +kernel⟩, ⟨rfl, ?_, by decide +kernel⟩, by simp⟩
  all_goals
    rintro _ _ _ ⟨⟩ ⟨⟩ - hvoter -
    cases hvoter

end EvaporChain
