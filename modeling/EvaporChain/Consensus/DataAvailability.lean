import EvaporChain.Consensus.VoteAuthentication

/-!
# What the data-availability gate guarantees

Stored attestations were received and valid when they arrived. A block passes the gate on the
stake of the attestations stored for its *number*; they speak about its data only when they
carry its data root.
-/

namespace EvaporChain

open Core List

namespace TendermintConsensus

/-- The history has this attestation, valid under the keys registered when it arrived. -/
def AttestationReceived (env : Env) (h : List (TendermintConsensus × Event))
    (att : DAAttestation) : Prop :=
  ∃ x ∈ h, ∃ input, x.2 = .message input (.daAttestation att) ∧ x.1.attestationValid env att = true

/-- Every stored attestation was received, for the number it is stored under. -/
def AttestationsReceived (env : Env) (h : List (TendermintConsensus × Event))
    (c : TendermintConsensus) : Prop :=
  ∀ number, ∀ att ∈ c.attestationsFor number,
    att.blockNumber = number ∧ AttestationReceived env h att

/-- Valid attestations for exactly the block's number and data root were received from distinct
non-jailed validators, without the producer outside small-cluster mode, and their stake reaches
the quorum. -/
def DataAttested (env : Env) (h : List (TendermintConsensus × Event)) (c : TendermintConsensus)
    (block : Block) (root : Hash) : Prop :=
  ∃ attesters : List ℕ, attesters.Nodup ∧ (∀ vid ∈ attesters,
      (∃ att, att.validatorId = vid ∧ att.blockNumber = block.number ∧ att.dataRoot = root ∧
        AttestationReceived env h att) ∧
      c.validatorSet.isJailed vid = false ∧
      (c.smallClusterDaMode = false → block.producerId ≠ some vid)) ∧
    c.validatorSet.stakeQuorumThreshold ≤ (attesters.map c.validatorSet.stakeOf).sum

/-- The attestations that count for a block's number carry its data root, and the proposer
recorded for the number is the block's producer. -/
structure AttestationsMatch (c : TendermintConsensus) (block : Block) (root : Hash) : Prop where
  root : ∀ att ∈ c.countedAttestations block.number, att.dataRoot = root
  proposer : c.smallClusterDaMode = false →
    c.daBlockProposers.lookup block.number = block.producerId

variable {env : Env} {h : List (TendermintConsensus × Event)} {c c' : TendermintConsensus}

lemma AttestationsReceived.of_eq (hc : AttestationsReceived env h c)
    (heq : c'.daAttestations = c.daAttestations) : AttestationsReceived env h c' := by
  intro number att hatt
  rw [attestationsFor, heq] at hatt
  exact hc number att hatt

lemma AttestationsReceived.mono {h' : List (TendermintConsensus × Event)}
    (hc : AttestationsReceived env h c) (hsub : h ⊆ h') : AttestationsReceived env h' c := by
  intro number att hatt
  obtain ⟨hnumber, x, hx, hrest⟩ := hc number att hatt
  exact ⟨hnumber, x, hsub hx, hrest⟩

lemma attestationsReceived_store {att : DAAttestation} (hc : AttestationsReceived env h c)
    (hatt : AttestationReceived env h att) :
    AttestationsReceived env h (c.storeAttestation att) := by
  intro number a ha
  by_cases hn : number = att.blockNumber
  · subst hn
    simp only [attestationsFor, storeAttestation, AList.lookup_insert, Option.getD_some,
      mem_append, mem_singleton] at ha
    rcases ha with ha | rfl
    · exact hc _ a ha
    · exact ⟨rfl, hatt⟩
  · simp only [attestationsFor, storeAttestation, AList.lookup_insert_ne hn] at ha
    exact hc number a ha

variable {acts : List ConsensusAction} {root : Hash}

lemma attestationsReceived_of_move {t : TendermintConsensus} {e : Event} (hmem : (t, e) ∈ h)
    (hset : ¬ e.IsKeyAnnounce → c.validatorSet = (t.opened e).validatorSet)
    (hmove : Move env e c acts c') (hc : AttestationsReceived env h c) :
    AttestationsReceived env h c' := by
  cases hmove with
  | @storeAttestation input att he hvalid =>
    subst he
    have hset' := hset (by simp [Event.IsKeyAnnounce])
    simp only [attestationValid, hset'] at hvalid
    exact attestationsReceived_store hc ⟨_, hmem, input, rfl, hvalid⟩
  | say | propose | dropProposed | registerKey | skip | adoptBlock | recordPrevote
  | recordPrecommit => exact hc.of_eq rfl
  | proposeTimedOut =>
    simp only [proposeTimedOut]
    split_ifs <;> exact hc.of_eq rfl
  | prevoteTimedOut =>
    simp only [prevoteTimedOut]
    split_ifs <;> exact hc.of_eq rfl
  | recordProposal =>
    rw [c.recordProposal_eq]
    exact hc.of_eq rfl
  | voteOnProposal =>
    rw [c.voteOnProposal_eq]
    exact hc.of_eq rfl

/-- The moves of a call start from what the history accounts for. -/
lemma attestationsReceived_call {e : Event} (hc : AttestationsReceived env h c)
    (hmoves : Moves env e (c.opened e) acts c') : AttestationsReceived env (h ++ [(c, e)]) c' := by
  have hopened : AttestationsReceived env (h ++ [(c, e)]) (c.opened e) := by
    have hc' := hc.mono (subset_append_left h [(c, e)])
    cases e <;> exact hc'.of_eq rfl
  exact hmoves.keeps (fun before => attestationsReceived_of_move (by simp) before.validatorSet_eq)
    hopened

/-- One call keeps the origin of the attestations. -/
lemma attestationsReceived_step {e : Event} (hc : AttestationsReceived env h c) :
    AttestationsReceived env (h ++ [(c, e)]) (c.step env e) := by
  have hspec := handle_spec env e c
  rw [step]
  generalize c.handle env e = outcome at hspec ⊢
  cases hspec with
  | stay moves => exact attestationsReceived_call hc moves
  | @precommit acts c' hash now moves =>
    refine (attestationsReceived_call hc moves).of_eq ?_
    simp only [precommitOnQuorum]
    split_ifs
    · rfl
    · obtain ⟨block, round, hlock⟩ := c'.lockOn_eq env hash
      rw [hlock]
      rfl
  | commit moves => exact (attestationsReceived_call hc moves).of_eq rfl
  | commitAdvance moves | advance moves =>
    exact (attestationsReceived_call hc moves).of_eq (daAttestations_advanceRound _ _ _)
  | @slash acts c' vid moves =>
    obtain ⟨vs, heq, -⟩ := c'.sanovSlashEquivocation_eq env vid sanovEquivocationWindow
    refine (attestationsReceived_call hc moves).of_eq ?_
    rw [heq]
  | @committed input =>
    obtain ⟨c', heq, -, -, -, -, -, -, hatt⟩ := c.onBlockCommitted_eq env input
    refine (hc.mono (subset_append_left h _)).of_eq ?_
    rw [heq]
    exact hatt

/-- Jailed validators add nothing to a voting stake. -/
lemma sum_votingStake_eq (vs : ValidatorSet) (l : List ℕ) :
    (l.map vs.votingStake).sum = ((l.filter (!vs.isJailed ·)).map vs.stakeOf).sum := by
  induction l with
  | nil => rfl
  | cons vid l ih =>
    by_cases hj : vs.isJailed vid = true
    · simp [hj, ih, ValidatorSet.votingStake_of_isJailed hj]
    · simp [hj, ih, ValidatorSet.stakeOf_of_not_isJailed hj]

/-- Counted attestations that match a block attest its data. -/
lemma dataAttested_of_match {block : Block} (hc : AttestationsReceived env h c)
    (hda : c.hasDaSupermajority block.number = true) (hmatch : c.AttestationsMatch block root) :
    DataAttested env h c block root := by
  refine ⟨((c.countedAttestations block.number).map (·.validatorId)).dedup.filter
    (!c.validatorSet.isJailed ·), (nodup_dedup _).filter _, fun vid hvid => ?_, ?_⟩
  · obtain ⟨hvid, hjail⟩ := List.mem_filter.mp hvid
    obtain ⟨att, hatt, rfl⟩ := List.mem_map.mp (List.mem_dedup.mp hvid)
    obtain ⟨hstored, hcounted⟩ := List.mem_filter.mp hatt
    obtain ⟨hnumber, hreceived⟩ := hc _ att hstored
    refine ⟨⟨att, rfl, hnumber, hmatch.root att hatt, hreceived⟩, by simpa using hjail, ?_⟩
    intro hsmall
    rw [← hmatch.proposer hsmall]
    simpa [hsmall] using hcounted
  · rw [← sum_votingStake_eq]
    simp only [hasDaSupermajority] at hda
    split_ifs at hda
    exact (of_decide_eq_true hda).trans (satSum_le_sum _)

lemma AttestationsMatch.of_sameGate {block : Block} (hgate : SameGate c c')
    (hmatch : c.AttestationsMatch block root) : c'.AttestationsMatch block root := by
  refine ⟨fun att hatt => hmatch.root att ?_, fun hsmall => ?_⟩
  · rwa [countedAttestations, attestationsFor, hgate.attestations, hgate.proposers,
      hgate.smallCluster] at hatt
  · rw [hgate.proposers]
    exact hmatch.proposer (hgate.smallCluster ▸ hsmall)

lemma attestationsReceived_run (env : Env) (c : TendermintConsensus) (hfresh : c.daAttestations = ∅)
    (es : List Event) : AttestationsReceived env (trace (step env) c es) (run (step env) c es) := by
  refine run_induction (step env) (P := fun c h => AttestationsReceived env h c)
    (G := fun _ _ => True) ?_ ?_ es fun _ _ => trivial
  · intro number att hatt
    simp [attestationsFor, hfresh] at hatt
  · intro c h e hc _
    exact attestationsReceived_step hc

/-- Along every run of a node that starts without attestations, a block committed at or above
the enforcement height was attested to, provided the attestations that count for its number
before the call, with the one that the call may bring, match it. -/
theorem committed_data_attested (env : Env) (c : TendermintConsensus)
    (hfresh : c.daAttestations = ∅) (es : List Event) (e : Event) (b : Block) (root : Hash)
    (hmem : .commitBlock b ∈ ((run (step env) c es).handle env e).actions)
    (hroot : b.dataRoot = some root)
    (hheight : (run (step env) c es).daEnforcementHeight ≤ (run (step env) c es).height)
    (hmatch : ((run (step env) c es).attested e).AttestationsMatch b root) :
    DataAttested env (trace (step env) c (es ++ [e])) ((run (step env) c es).opened e) b root := by
  have hreceived := attestationsReceived_run env c hfresh es
  rw [trace_concat]
  generalize run (step env) c es = c₀ at hmem hheight hmatch hreceived ⊢
  have hkey : ¬ e.IsKeyAnnounce := by
    rintro ⟨input, vid, pk, pop, sig, rfl⟩
    simp [handle, onMessage] at hmem
  obtain ⟨acts, c', block, moves, hcan, hb, -, hgate⟩ := exists_canCommit_of_mem hmem
  have hsame := moves.sameNode
  have hset := moves.validatorSet_eq hkey
  have hopened : (c₀.opened e).height = c₀.height ∧
      (c₀.opened e).daEnforcementHeight = c₀.daEnforcementHeight := by
    cases e <;> exact ⟨rfl, rfl⟩
  simp only [commitProposed, ConsensusAction.commitBlock.injEq] at hb
  have hda : c'.hasDaSupermajority b.number = true := by
    rw [hb] at hroot ⊢
    rw [← hopened.1, ← hopened.2, ← hsame.height, ← hsame.daEnforcementHeight] at hheight
    have hopen := hcan.gate
    simpa [daGateOpen, hheight, show block.dataRoot = _ from hroot] using hopen
  obtain ⟨attesters, hnodup, hatt, hstake⟩ :=
    dataAttested_of_match (attestationsReceived_call hreceived moves) hda (hmatch.of_sameGate hgate)
  rw [hset] at hatt hstake
  rw [hsame.smallClusterDaMode] at hatt
  exact ⟨attesters, hnodup, hatt, hstake⟩

/-! ### Attestations for another root -/

/-- A signed attestation of a `fourKeyed` validator for block 1. -/
def attestationOf (vid : ℕ) (root : Hash) : DAAttestation where
  blockNumber := 1
  dataRoot := root
  validatorId := vid
  samplesVerified := 0
  stake := 10
  signature := UInt8.ofNat vid :: daAttestationMessage 1 root vid 0 10
  publicKey := [UInt8.ofNat vid]

def enforcingLeader : TendermintConsensus := { fourNode 4 with daEnforcementHeight := 1 }

/-- The leader proposes, the others attest to `root`, and two of them vote for the block. -/
def attestedRun (root : Hash) : List Event :=
  [ .tick (tickAt 0 0), .message (callAt 0) (.daAttestation (attestationOf 1 root)),
    .message (callAt 0) (.daAttestation (attestationOf 2 root)),
    .message (callAt 0) (.daAttestation (attestationOf 3 root)),
    .message (callAt 0) (signedPrevote 1 0 (some Hash.zero)),
    .message (callAt 0) (signedPrevote 2 0 (some Hash.zero)),
    .message (callAt 0) (signedPrecommit 1 0 (some Hash.zero)) ]

def lastPrecommit : Event := .message (callAt 0) (signedPrecommit 2 0 (some Hash.zero))

/-- The block the leader proposes; its data root is zero. -/
def leaderBlock : Block := enforcingLeader.createProposal transparentEnv (tickAt 0 0)

def committedBlock (root : Hash) : Block :=
  { leaderBlock with
    commitCertificate :=
      tryBuildCommitCertificate transparentEnv
        ((run (step transparentEnv) enforcingLeader (attestedRun root)).recordPrecommit 2
          (some Hash.zero)
          (some ([2] ++ blsVoteMessage ChainId.empty 1 0 (some Hash.zero) .precommit)))
        Hash.zero }

def otherRoot : Hash := List.Vector.replicate 32 1

/-- No attestation of the run is for a root other than `root`. -/
lemma not_received_of_ne {root' : Hash} (hne : root' ≠ root) {att : DAAttestation}
    (hatt : att.dataRoot = root') :
    ¬ AttestationReceived transparentEnv
      (trace (step transparentEnv) enforcingLeader (attestedRun root ++ [lastPrecommit])) att := by
  rintro ⟨x, hx, input, hevent, -⟩
  have hmem : x.2 ∈ attestedRun root ++ [lastPrecommit] := by
    have := mem_map_of_mem (f := Prod.snd) hx
    rwa [map_snd_trace] at this
  rw [hevent] at hmem
  simp only [attestedRun, lastPrecommit, signedPrevote, signedPrecommit, cons_append,
    nil_append, mem_cons, not_mem_nil, Event.message.injEq, reduceCtorEq,
    ConsensusMessage.daAttestation.injEq, and_false, or_false, false_or] at hmem
  apply hne
  rw [← hatt]
  rcases hmem with ⟨-, rfl⟩ | ⟨-, rfl⟩ | ⟨-, rfl⟩ <;> rfl

/-- The leader commits a block with data root zero on attestations for another root only. -/
theorem commit_without_attested_data :
    let c := run (step transparentEnv) enforcingLeader (attestedRun otherRoot)
    .commitBlock (committedBlock otherRoot) ∈ (c.handle transparentEnv lastPrecommit).actions ∧
    (committedBlock otherRoot).dataRoot = some Hash.zero ∧ c.daEnforcementHeight ≤ c.height ∧
    ¬ DataAttested transparentEnv
      (trace (step transparentEnv) enforcingLeader (attestedRun otherRoot ++ [lastPrecommit]))
      (c.opened lastPrecommit) (committedBlock otherRoot) Hash.zero := by
  refine ⟨by decide +kernel, by decide +kernel, by decide +kernel, ?_⟩
  rintro ⟨attesters, -, hall, hstake⟩
  cases attesters with
  | nil =>
    refine absurd hstake ?_
    decide +kernel
  | cons vid attesters =>
    obtain ⟨⟨att, -, -, hroot, hreceived⟩, -⟩ := hall vid (.head _)
    exact not_received_of_ne (by decide) hroot hreceived

/-- With attestations for the block's own root, the commit is justified. -/
theorem committed_data_attested_leader :
    DataAttested transparentEnv
      (trace (step transparentEnv) enforcingLeader (attestedRun Hash.zero ++ [lastPrecommit]))
      ((run (step transparentEnv) enforcingLeader (attestedRun Hash.zero)).opened lastPrecommit)
      (committedBlock Hash.zero) Hash.zero :=
  committed_data_attested transparentEnv enforcingLeader rfl (attestedRun Hash.zero) lastPrecommit
    (committedBlock Hash.zero) Hash.zero (by decide +kernel) (by decide +kernel)
    (by decide +kernel) ⟨by decide +kernel, by decide +kernel⟩

end TendermintConsensus

end EvaporChain
