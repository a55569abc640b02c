import EvaporChain.Consensus.CertifiedFinality

/-!
# Certificates on the node that builds them

The builder takes every signed precommit, the verifier wants a verified proof of possession from
every signer. A certificate is sure to verify on the node that built it as long as all validators
have verified keys and no key is replaced.
-/

namespace EvaporChain.TendermintConsensus

open Core FinalizingNode

/-- The certificates a node can build verify on that node. -/
def RoundTrips (env : Env) (c : TendermintConsensus) : Prop :=
  ∀ hash cert, c.tryBuildCommitCertificate env hash = some cert →
    c.verifyCommitCertificate env.bls cert = true

/-- All keys are verified, and the call replaces none. -/
structure KeysSettled (env : Env) (c : TendermintConsensus) (e : Event) : Prop where
  keys : KeysFit env c
  keep : ∀ input vid pk pop sig, e = .message input (.keyAnnounce vid pk pop sig) →
    c.keyAdmitted env vid pk pop sig = false

lemma precommitsSigned_step {env : Env} (hbls : env.bls.Lawful) {c : TendermintConsensus}
    {e : Event} (hsettled : KeysSettled env c e) (h : PrecommitsSigned env c) :
    PrecommitsSigned env (c.step env e) := by
  by_cases hannounce : e.IsKeyAnnounce
  · obtain ⟨input, vid, pk, pop, sig, rfl⟩ := hannounce
    have hkeep := hsettled.keep input vid pk pop sig rfl
    simpa [step, handle, onMessage, onKeyAnnounce, hkeep] using h
  · exact precommitsSigned_handle hbls hsettled.keys hannounce h

theorem commit_certificate_round_trip (env : Env) (hbls : env.bls.Lawful)
    (c : TendermintConsensus) (hfresh : c.roundState.precommitBlsSigs = ∅) (es : List Event)
    (hsettled : ∀ x ∈ trace (step env) c es, KeysSettled env x.1 x.2)
    (hverified : (run (step env) c es).validatorSet.AllVerified) :
    RoundTrips env (run (step env) c es) := by
  have hsigned : PrecommitsSigned env (run (step env) c es) := by
    refine run_induction (step env) (P := fun c _ => PrecommitsSigned env c)
      (G := KeysSettled env) ?_ (fun c _ e h hsettled => precommitsSigned_step hbls hsettled h) es
      hsettled
    intro vid sig hash hsig
    simp [hfresh] at hsig
  intro hash cert hbuild
  exact (verifies_of_tryBuild hbls hverified hsigned hbuild rfl rfl).2

def firstNode (vs : ValidatorSet) : TendermintConsensus := .new 1 vs ChainId.empty (some [1]) 0

lemma keysSettled_votingCalls :
    ∀ x ∈ trace (step lawfulEnv) (firstNode fourVerified) (votingCalls (blockAt 1)),
      KeysSettled lawfulEnv x.1 x.2 := by
  intro x hx
  have hkeys : ∀ y ∈ trace (step lawfulEnv) (firstNode fourVerified) (votingCalls (blockAt 1)),
      (∀ v ∈ y.1.validatorSet.validators, v.blsPublicKey.isSome ∧ v.popVerified = true) ∧
      y.1.blsKeypair = some [1] ∧ y.1.validatorSet.currentKey y.1.myId = some [1] := by
    decide +kernel
  obtain ⟨hverified, hkeypair, hown⟩ := hkeys x hx
  refine ⟨keysFit_of_eq hverified hkeypair hown, ?_⟩
  intro input vid pk pop sig he
  have hmem := snd_mem_of_mem_trace (step lawfulEnv) hx
  rw [he] at hmem
  simp [votingCalls, signedPrevote, signedPrecommit] at hmem

theorem commit_certificate_round_trip_four :
    ((run (step lawfulEnv) (firstNode fourVerified)
      (votingCalls (blockAt 1))).tryBuildCommitCertificate lawfulEnv (hashAt 1)).map
        (·.signerIds) = some [1, 2, 4] ∧
    RoundTrips lawfulEnv
      (run (step lawfulEnv) (firstNode fourVerified) (votingCalls (blockAt 1))) :=
  ⟨by decide +kernel, commit_certificate_round_trip lawfulEnv lawful_lawfulEnv
    (firstNode fourVerified) rfl (votingCalls (blockAt 1)) keysSettled_votingCalls
    (ValidatorSet.allVerified_of_mem (by decide +kernel))⟩

/-- With keys that nobody has proved to possess the same votes give a certificate that fails. -/
theorem unverified_signers_fail :
    ¬ RoundTrips lawfulEnv
      (run (step lawfulEnv) (firstNode fourKeyed) (votingCalls (blockAt 1))) := by
  intro h
  have hbuild : ((run (step lawfulEnv) (firstNode fourKeyed)
      (votingCalls (blockAt 1))).tryBuildCommitCertificate lawfulEnv (hashAt 1)).map
        ((run (step lawfulEnv) (firstNode fourKeyed)
          (votingCalls (blockAt 1))).verifyCommitCertificate lawfulEnv.bls) = some false := by
    decide +kernel
  obtain ⟨cert, hcert, hfails⟩ := Option.map_eq_some_iff.mp hbuild
  rw [h _ cert hcert] at hfails
  cases hfails

end EvaporChain.TendermintConsensus
