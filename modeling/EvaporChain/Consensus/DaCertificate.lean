import EvaporChain.Consensus.BlockHash

/-!
# Data-availability certificates

A block may carry the attestations of a supermajority for an earlier block. The verifier binds every
attestation to a registered key and counts registered stakes, those of jailed validators included;
it does not ask whether the attested data root is the one of the chain's block.
-/

namespace EvaporChain

open Core TendermintConsensus

/-! ### The attestation loop -/

namespace TendermintConsensus

variable {env : Env} {c : TendermintConsensus} {cert : DACertificate} {atts : List DAAttestation}

/-- Attesters with a registered key. -/
def daSigners (c : TendermintConsensus) (atts : List DAAttestation) : List ℕ :=
  (atts.map (·.validatorId)).filter fun vid => (c.validatorSet.currentKey vid).isSome

/-- Attestations the loop lets pass: for the certificate's block, by distinct validators, and valid
where the attester has a registered key. -/
structure AttestationsBound (env : Env) (c : TendermintConsensus) (cert : DACertificate)
    (atts : List DAAttestation) : Prop where
  content : ∀ att ∈ atts, att.blockNumber = cert.blockNumber ∧ att.dataRoot = cert.dataRoot
  nodup : (atts.map (·.validatorId)).Nodup
  valid : ∀ att ∈ atts, (c.validatorSet.currentKey att.validatorId).isSome →
    c.attestationValid env att = true

lemma attestationsBound_cons {att : DAAttestation} :
    AttestationsBound env c cert (att :: atts) ↔
      (att.blockNumber = cert.blockNumber ∧ att.dataRoot = cert.dataRoot) ∧
      (∀ att' ∈ atts, att'.validatorId ≠ att.validatorId) ∧
      ((c.validatorSet.currentKey att.validatorId).isSome → c.attestationValid env att = true) ∧
      AttestationsBound env c cert atts := by
  constructor
  · intro h
    obtain ⟨hhead, htail⟩ := List.forall_mem_cons.mp h.content
    obtain ⟨hvalid, hvalids⟩ := List.forall_mem_cons.mp h.valid
    obtain ⟨hnew, hnodup⟩ := List.nodup_cons.mp h.nodup
    refine ⟨hhead, fun att' hatt' heq => hnew ?_, hvalid, ⟨htail, hnodup, hvalids⟩⟩
    exact List.mem_map.mpr ⟨att', hatt', heq⟩
  · rintro ⟨hhead, hnew, hvalid, h⟩
    refine ⟨List.forall_mem_cons.mpr ⟨hhead, h.content⟩, List.nodup_cons.mpr ⟨?_, h.nodup⟩,
      List.forall_mem_cons.mpr ⟨hvalid, h.valid⟩⟩
    intro hmem
    obtain ⟨att', hatt', heq⟩ := List.mem_map.mp hmem
    exact hnew att' hatt' heq

/-- What the loop does. -/
lemma scanAttestations_iff {seen : List ℕ} {stake result : ℕ} :
    c.scanAttestations env cert atts seen stake = some result ↔
      AttestationsBound env c cert atts ∧ (∀ att ∈ atts, att.validatorId ∉ seen) ∧
      ((c.daSigners atts).map c.validatorSet.ownStake).foldl satAdd stake = result := by
  induction atts generalizing seen stake with
  | nil =>
    have hnil : AttestationsBound env c cert [] := ⟨by simp, by simp, by simp⟩
    simp [scanAttestations, daSigners, hnil]
  | cons att atts ih =>
    rw [scanAttestations, attestationsBound_cons]
    by_cases hcontent : att.blockNumber = cert.blockNumber ∧ att.dataRoot = cert.dataRoot
    swap
    · rw [if_pos (by tauto)]
      simp [hcontent]
    by_cases hseen : att.validatorId ∈ seen
    · simp [hseen]
    rw [if_neg (by tauto)]
    -- later attesters are new exactly if they are new and different from this one
    have hnew : (∀ att' ∈ atts, att'.validatorId ∉ att.validatorId :: seen) ↔
        (∀ att' ∈ atts, att'.validatorId ≠ att.validatorId) ∧
          ∀ att' ∈ atts, att'.validatorId ∉ seen := by
      simp only [List.mem_cons, not_or]
      exact ⟨fun h => ⟨fun a ha => (h a ha).1, fun a ha => (h a ha).2⟩,
        fun h a ha => ⟨h.1 a ha, h.2 a ha⟩⟩
    have hskip : (c.validatorSet.currentKey att.validatorId).isSome = false →
        c.daSigners (att :: atts) = c.daSigners atts := by
      intro hkey
      simp [daSigners, hkey]
    cases hget : c.validatorSet.get att.validatorId with
    | none =>
      have hkey : (c.validatorSet.currentKey att.validatorId).isSome = false := by
        simp [ValidatorSet.currentKey, hget]
      simp only [ih, hskip hkey, hkey, List.forall_mem_cons]
      tauto
    | some v =>
      cases hpk : v.blsPublicKey with
      | none =>
        have hkey : (c.validatorSet.currentKey att.validatorId).isSome = false := by
          simp [ValidatorSet.currentKey, hget, hpk]
        simp only [hpk, ih, hskip hkey, hkey, List.forall_mem_cons]
        tauto
      | some pk =>
        have hkey : (c.validatorSet.currentKey att.validatorId).isSome = true := by
          simp [ValidatorSet.currentKey, hget, hpk]
        have hcount : ((c.daSigners (att :: atts)).map c.validatorSet.ownStake).foldl satAdd stake =
            ((c.daSigners atts).map c.validatorSet.ownStake).foldl satAdd
              (satAdd stake v.stake) := by
          simp [daSigners, hkey, ValidatorSet.ownStake, hget]
        simp only [hpk, hcount, hkey, List.forall_mem_cons]
        split_ifs with hvalid
        · simp only [ih]
          tauto
        · simp [hvalid]

/-- What an accepted certificate has passed. -/
lemma verifyDaCertificate_iff {block : Block} {bytes : Bytes}
    (hbytes : block.daCertificate = some bytes)
    (hdecode : env.decodeDaCertificate bytes = some cert) :
    c.verifyDaCertificate env block = true ↔
      cert.totalStake = c.validatorSet.totalStake ∧ 2 * cert.totalStake < 3 * cert.attestedStake ∧
      cert.attestations ≠ [] ∧ cert.blockNumber ≤ block.number ∧
      block.number - 12 ≤ cert.blockNumber ∧ AttestationsBound env c cert cert.attestations ∧
      2 * cert.totalStake <
        3 * satSum ((c.daSigners cert.attestations).map c.validatorSet.ownStake) := by
  have hscan (p : ℕ → Bool) : (c.scanAttestations env cert cert.attestations [] 0).any p = true ↔
      AttestationsBound env c cert cert.attestations ∧
        p (satSum ((c.daSigners cert.attestations).map c.validatorSet.ownStake)) = true := by
    rw [Option.any_eq_true]
    constructor
    · rintro ⟨stake, hstake, hp⟩
      obtain ⟨hbound, -, rfl⟩ := scanAttestations_iff.mp hstake
      exact ⟨hbound, hp⟩
    · rintro ⟨hbound, hp⟩
      exact ⟨_, scanAttestations_iff.mpr ⟨hbound, by simp, rfl⟩, hp⟩
  simp only [verifyDaCertificate, hbytes, hdecode, Bool.and_eq_true, hscan, beq_iff_eq,
    decide_eq_true_eq, Bool.not_eq_true', List.isEmpty_eq_false_iff]
  tauto

/-! ### What certificates prove -/

end TendermintConsensus

namespace TendermintConsensus

variable {env : Env} {c : TendermintConsensus} {cert : DACertificate}

/-- Every attester that counts signed. -/
lemma AttestationsBound.signed {bls : IdealBls} {atts : List DAAttestation}
    (hbls : ∀ {msg sig pk}, bls.verify msg sig pk = true → bls.Signed pk msg)
    (henv : env.bls = bls.toBls) (h : AttestationsBound env c cert atts) :
    ∀ vid ∈ c.daSigners atts, ∃ pk samples stake, c.validatorSet.currentKey vid = some pk ∧
      bls.Signed pk (daAttestationMessage cert.blockNumber cert.dataRoot vid samples stake) := by
  intro vid hvid
  obtain ⟨hmem, hkey⟩ := List.mem_filter.mp hvid
  obtain ⟨att, hatt, rfl⟩ := List.mem_map.mp hmem
  have hvalid := h.valid att hatt hkey
  obtain ⟨hnumber, hroot⟩ := h.content att hatt
  unfold attestationValid at hvalid
  cases hget : c.validatorSet.get att.validatorId with
  | none => simp [hget] at hvalid
  | some v =>
    simp only [hget, henv, Bool.and_eq_true, beq_iff_eq] at hvalid
    refine ⟨att.publicKey, att.samplesVerified, att.stake, ?_, ?_⟩
    · simp [ValidatorSet.currentKey, hget, hvalid.1]
    · rw [← hnumber, ← hroot]
      exact hbls hvalid.2

end TendermintConsensus

def certifiedBlock : Block := { emptyBlock with number := 0, daCertificate := some [] }

end EvaporChain
