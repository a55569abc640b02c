import EvaporChain.Consensus.Node

/-!
# Commit certificates

Verification of an aggregate precommit certificate against a node's validator set, in the
strict form and in the relaxed form used while syncing.

The strict form counts the stake of every listed signer while the threshold is taken from the
non-jailed validators only. `verifyCommitCertificate_sound_iff` says exactly for which
validator sets this is harmless.
-/

namespace EvaporChain

open Core ValidatorSet Finset List Option

namespace ValidatorSet

variable (vs : ValidatorSet) (vid : ℕ)

/-- Stake a validator contributes to a quorum: nothing when unknown or jailed. -/
def votingStake : ℕ :=
  match vs.get vid with
  | some v => if v.jailed then 0 else v.effectiveStake
  | none => 0

/-- Effective stake of a validator, jailed or not. -/
def stakeOf : ℕ :=
  match vs.get vid with
  | some v => v.effectiveStake
  | none => 0

/-- Whether a signer passes the loop of certificate verification: known, with a registered key
and a verified proof of possession. -/
def canSign : Bool :=
  match vs.get vid with
  | some v => v.blsPublicKey.isSome && v.popVerified
  | none => false

def currentKey : Option Bytes := (vs.get vid).bind (·.blsPublicKey)

/-- Total effective stake, jailed validators included. -/
def genesisTotal : ℕ := satSum (vs.validators.map (·.effectiveStake))

/-- Whether a known validator is jailed. -/
def isJailed : Bool := (vs.get vid).any (·.jailed)

/-- Jailed validators whose signature a certificate may list. -/
def jailedSigners : List ℕ :=
  vs.ids.dedup.filter fun vid => vs.canSign vid && vs.isJailed vid

/-- No group of signers that misses two thirds of the active stake reaches the threshold with
the help of the jailed validators. -/
def JailedCannotTip : Prop :=
  ∀ signers : List ℕ, signers.Nodup → (∀ vid ∈ signers, vs.canSign vid = true) →
    3 * (signers.map vs.votingStake).sum ≤ 2 * vs.totalStake →
    (signers.map vs.votingStake).sum + (vs.jailedSigners.map vs.stakeOf).sum <
      vs.stakeQuorumThreshold

lemma stakeQuorumThreshold_le_max : vs.stakeQuorumThreshold ≤ u64Max := by
  have h : vs.totalStake ≤ u64Max := satSum_le_max _
  simp only [stakeQuorumThreshold] at h ⊢
  split_ifs <;> omega

lemma stakeQuorumThreshold_pos : 0 < vs.stakeQuorumThreshold := by
  simp only [stakeQuorumThreshold, u64Max]
  split_ifs <;> omega

/-- The threshold is strictly more than two thirds of the total. -/
lemma two_mul_totalStake_lt :
    2 * vs.totalStake < 3 * vs.stakeQuorumThreshold := by
  simp only [stakeQuorumThreshold, u64Max]
  split_ifs <;> omega

variable {vs : ValidatorSet} {vid : ℕ}

lemma canSign_iff :
    vs.canSign vid = true ↔
      ∃ v pk, vs.get vid = some v ∧ v.blsPublicKey = some pk ∧ v.popVerified = true := by
  cases hv : vs.get vid with
  | none => simp [canSign, hv]
  | some v => simp [canSign, hv, isSome_iff_exists]

lemma mem_ids_of_get {v : ValidatorInfo} (h : vs.get vid = some v) : vid ∈ vs.ids := by
  have hid : v.id = vid := by simpa using List.find?_some h
  exact List.mem_map.mpr ⟨v, List.mem_of_find?_eq_some h, hid⟩

lemma stakeOf_eq (vs : ValidatorSet) (vid : ℕ) :
    vs.stakeOf vid = vs.votingStake vid + if vs.isJailed vid then vs.stakeOf vid else 0 := by
  cases hv : vs.get vid with
  | none => simp [stakeOf, votingStake, hv]
  | some v => cases hj : v.jailed <;> simp [stakeOf, votingStake, isJailed, hv, hj]

lemma votingStake_of_isJailed (h : vs.isJailed vid = true) : vs.votingStake vid = 0 := by
  have := stakeOf_eq vs vid
  rw [if_pos h] at this
  omega

lemma stakeOf_of_not_isJailed (h : ¬ vs.isJailed vid = true) :
    vs.stakeOf vid = vs.votingStake vid := by
  rw [stakeOf_eq, if_neg h, add_zero]

lemma mem_jailedSigners :
    vid ∈ vs.jailedSigners ↔ vs.canSign vid = true ∧ vs.isJailed vid = true := by
  have hids : vs.canSign vid = true → vid ∈ vs.ids := by
    intro h
    obtain ⟨v, -, hv, -⟩ := canSign_iff.mp h
    exact mem_ids_of_get hv
  simp only [jailedSigners, List.mem_filter, mem_dedup, Bool.and_eq_true]
  exact ⟨And.right, fun h => ⟨hids h.1, h⟩⟩

lemma sum_stakeOf (vs : ValidatorSet) (l : List ℕ) :
    (l.map vs.stakeOf).sum =
      (l.map vs.votingStake).sum + ((l.filter vs.isJailed).map vs.stakeOf).sum := by
  induction l with
  | nil => rfl
  | cons vid l ih =>
    rw [List.map_cons, stakeOf_eq, List.filter_cons]
    split_ifs <;> simp <;> omega

lemma totalStake_eq_genesisTotal (vs : ValidatorSet)
    (h : ∀ v ∈ vs.validators, v.jailed = false) : vs.totalStake = vs.genesisTotal := by
  have hactive : vs.active = vs.validators := List.filter_eq_self.mpr fun v hv => by simp [h v hv]
  rw [totalStake, genesisTotal, hactive]

lemma stakeOf_cons (v : ValidatorInfo) (l : List ValidatorInfo) (vid : ℕ) :
    stakeOf ⟨v :: l⟩ vid = if v.id = vid then v.effectiveStake else stakeOf ⟨l⟩ vid := by
  by_cases h : v.id = vid
  · simp [stakeOf, get, h]
  · simp [stakeOf, get, h]

/-- Counting every id once gives no more than the sum over the whole list. -/
lemma sum_stakeOf_ids_le (vs : ValidatorSet) :
    ∑ vid ∈ vs.ids.toFinset, vs.stakeOf vid ≤ (vs.validators.map (·.effectiveStake)).sum := by
  obtain ⟨l⟩ := vs
  induction l with
  | nil => simp [ids]
  | cons v l ih =>
    have hids : (ids ⟨v :: l⟩).toFinset = insert v.id ((ids ⟨l⟩).toFinset.erase v.id) := by
      ext vid
      by_cases h : vid = v.id <;> simp [ids, h]
    have hrest : ∑ vid ∈ (ids ⟨l⟩).toFinset.erase v.id, stakeOf ⟨v :: l⟩ vid ≤
        ∑ vid ∈ (ids ⟨l⟩).toFinset, stakeOf ⟨l⟩ vid := by
      refine le_trans (le_of_eq (sum_congr rfl fun vid hvid => ?_))
        (sum_le_sum_of_subset (Finset.erase_subset _ _))
      rw [stakeOf_cons, if_neg (ne_of_mem_erase hvid).symm]
    rw [hids, sum_insert (notMem_erase _ _), stakeOf_cons, if_pos rfl]
    exact Nat.add_le_add_left (hrest.trans ih) _

lemma votingStake_cons (v : ValidatorInfo) (l : List ValidatorInfo) (vid : ℕ) :
    votingStake ⟨v :: l⟩ vid =
      if v.id = vid then if v.jailed then 0 else v.effectiveStake else votingStake ⟨l⟩ vid := by
  by_cases h : v.id = vid
  · simp [votingStake, get, h]
  · simp [votingStake, get, h]

/-- Distinct validators: the voting stakes add up to the stake of the active ones. -/
lemma sum_votingStake_ids (hnodup : vs.ids.Nodup) :
    ∑ vid ∈ vs.ids.toFinset, vs.votingStake vid = (vs.active.map (·.effectiveStake)).sum := by
  obtain ⟨l⟩ := vs
  induction l with
  | nil => simp [ids, active]
  | cons v l ih =>
    have hcons : v.id ∉ (ids ⟨l⟩) ∧ (ids ⟨l⟩).Nodup := List.nodup_cons.mp hnodup
    obtain ⟨hnew, hrest_nodup⟩ := hcons
    have hrest : ∑ vid ∈ (ids ⟨l⟩).toFinset, votingStake ⟨v :: l⟩ vid =
        ∑ vid ∈ (ids ⟨l⟩).toFinset, votingStake ⟨l⟩ vid := by
      refine sum_congr rfl fun vid hvid => ?_
      have hne : v.id ≠ vid := fun h => hnew (h ▸ List.mem_toFinset.mp hvid)
      rw [votingStake_cons, if_neg hne]
    have hids : (ids ⟨v :: l⟩).toFinset = insert v.id (ids ⟨l⟩).toFinset := toFinset_cons
    rw [hids, sum_insert (mt List.mem_toFinset.mp hnew), hrest, ih hrest_nodup,
      votingStake_cons]
    cases hj : v.jailed <;> simp [active, hj]

/-- The jailed signers of a certificate hold no more than all jailed validators that can sign. -/
lemma sum_jailed_le (vs : ValidatorSet) {l : List ℕ} (hnodup : l.Nodup)
    (hcan : ∀ vid ∈ l, vs.canSign vid = true) :
    ((l.filter vs.isJailed).map vs.stakeOf).sum ≤ (vs.jailedSigners.map vs.stakeOf).sum := by
  have hnodup' : vs.jailedSigners.Nodup := (nodup_dedup _).filter _
  rw [← sum_toFinset _ (hnodup.filter _), ← sum_toFinset _ hnodup']
  refine sum_le_sum_of_subset fun vid hvid => ?_
  rw [List.mem_toFinset, List.mem_filter] at hvid
  exact List.mem_toFinset.mpr (mem_jailedSigners.mpr ⟨hcan vid hvid.1, hvid.2⟩)

end ValidatorSet

/-- Whether the previous key of a validator is still accepted at `epoch`. -/
def ValidatorInfo.inGrace (epoch : ℕ) (v : ValidatorInfo) : Bool :=
  match v.blsPrevKeyExpiryEpoch with
  | some expiry => decide (epoch ≤ expiry)
  | none => false

/-- What the signer loop of certificate verification accumulates. -/
structure SignerScan where
  signerStake : ℕ
  pks : List Bytes
  anyInGrace : Bool

namespace TendermintConsensus

/-- The signer loop: fails on an unknown signer, on a signer without key, and on a signer
whose proof of possession was not verified. -/
def scanSigners (c : TendermintConsensus) : List ℕ → SignerScan → Option SignerScan
  | [], scan => some scan
  | vid :: vids, scan =>
    match c.validatorSet.get vid with
    | none => none
    | some v =>
      match v.blsPublicKey with
      | none => none
      | some pk =>
        if v.popVerified then
          c.scanSigners vids
            { signerStake := satAdd scan.signerStake v.effectiveStake
              pks := scan.pks ++ [pk]
              anyInGrace := scan.anyInGrace || (v.inGrace c.epoch && v.blsPublicKeyPrev.isSome) }
        else none

variable (c : TendermintConsensus)

/-- Key tried in the second pass: the previous one for a signer in its grace window. -/
def graceKey (vid : ℕ) : Option Bytes :=
  match c.validatorSet.get vid with
  | none => none
  | some v => if v.inGrace c.epoch then v.blsPublicKeyPrev.or v.blsPublicKey else v.blsPublicKey

/-- Whether a signer has a previous key that is still in its grace window. -/
def graceSigner (vid : ℕ) : Bool :=
  match c.validatorSet.get vid with
  | none => false
  | some v => v.inGrace c.epoch && v.blsPublicKeyPrev.isSome

/-- Stake of the listed signers as the verifier adds it up. -/
def signerStake (cert : CommitCertificate) : ℕ :=
  satSum (cert.signerIds.map c.validatorSet.stakeOf)

def certificateMessage (cert : CommitCertificate) : Bytes :=
  blsVoteMessage c.chainId cert.height cert.round (some cert.blockHash) .precommit

/-- Common body of the two verifiers. -/
def verifyCommitCertificateInner (bls : Bls) (c : TendermintConsensus) (cert : CommitCertificate)
    (allowStakeFallback : Bool) : Bool :=
  if ¬ cert.signerIds.Nodup then false
  else
    match c.scanSigners cert.signerIds ⟨0, [], false⟩ with
    | none => false
    | some scan =>
      if scan.signerStake < c.validatorSet.stakeQuorumThreshold ∧ (allowStakeFallback = false ∨
            scan.signerStake < c.validatorSet.genesisTotal / 3) then false
      else if bls.aggregateVerify (c.certificateMessage cert) cert.aggregateSignature scan.pks then
        true
      else if scan.anyInGrace then
        match cert.signerIds.mapM c.graceKey with
        | none => false
        | some pks =>
          bls.aggregateVerify (c.certificateMessage cert) cert.aggregateSignature pks
      else false

def verifyCommitCertificate (bls : Bls) (c : TendermintConsensus) (cert : CommitCertificate) :
    Bool :=
  c.verifyCommitCertificateInner bls cert false

/-- Variant of the sync path, which tolerates signer stake down to a third of the total. -/
def verifyCommitCertificateForSync (bls : Bls) (c : TendermintConsensus)
    (cert : CommitCertificate) : Bool :=
  c.verifyCommitCertificateInner bls cert true

/-! ### What an accepted certificate shows -/

/-- Closed form of the signer loop. -/
lemma scanSigners_eq (vids : List ℕ) (scan : SignerScan) :
    c.scanSigners vids scan =
      if vids.all c.validatorSet.canSign then
        some { signerStake := (vids.map c.validatorSet.stakeOf).foldl satAdd scan.signerStake
               pks := scan.pks ++ vids.filterMap c.validatorSet.currentKey
               anyInGrace := scan.anyInGrace || vids.any c.graceSigner }
      else none := by
  induction vids generalizing scan with
  | nil => simp [scanSigners]
  | cons vid vids ih =>
    cases hv : c.validatorSet.get vid with
    | none => simp [scanSigners, canSign, hv]
    | some v =>
      cases hk : v.blsPublicKey with
      | none => simp [scanSigners, canSign, hv, hk]
      | some pk =>
        cases hp : v.popVerified with
        | false => simp [scanSigners, canSign, hv, hk, hp]
        | true =>
          simp [scanSigners, ih, hv, hk, hp, canSign, stakeOf,
            currentKey, graceSigner, Bool.or_assoc]

/-- What acceptance of a certificate says about its signers, their stake and the keys under
which the aggregate verified. -/
lemma verifyCommitCertificateInner_iff (bls : Bls) (c : TendermintConsensus)
    (cert : CommitCertificate) (allow : Bool) :
    c.verifyCommitCertificateInner bls cert allow = true ↔
      cert.signerIds.Nodup ∧ (∀ vid ∈ cert.signerIds, c.validatorSet.canSign vid = true) ∧
      (c.validatorSet.stakeQuorumThreshold ≤ c.signerStake cert ∨
        allow = true ∧ c.validatorSet.genesisTotal / 3 ≤ c.signerStake cert) ∧
      (bls.aggregateVerify (c.certificateMessage cert) cert.aggregateSignature
          (cert.signerIds.filterMap c.validatorSet.currentKey) = true ∨
        (∃ vid ∈ cert.signerIds, c.graceSigner vid = true) ∧
        ∃ pks, cert.signerIds.mapM c.graceKey = some pks ∧
          bls.aggregateVerify (c.certificateMessage cert) cert.aggregateSignature pks = true) := by
  unfold verifyCommitCertificateInner
  rw [scanSigners_eq]
  by_cases hnodup : cert.signerIds.Nodup
  · by_cases hall : cert.signerIds.all c.validatorSet.canSign
    · have hstake : (c.signerStake cert < c.validatorSet.stakeQuorumThreshold ∧
          (allow = false ∨ c.signerStake cert < c.validatorSet.genesisTotal / 3)) ↔
          ¬ (c.validatorSet.stakeQuorumThreshold ≤ c.signerStake cert ∨
            allow = true ∧ c.validatorSet.genesisTotal / 3 ≤ c.signerStake cert) := by
        cases allow <;> simp
      have hfold : (cert.signerIds.map c.validatorSet.stakeOf).foldl satAdd 0 =
        c.signerStake cert := rfl
      have hsigners : ∀ vid ∈ cert.signerIds, c.validatorSet.canSign vid = true :=
        List.all_eq_true.mp hall
      simp only [hnodup, not_true_eq_false, if_false, hall, if_true, Bool.false_or, hfold,
        nil_append, hstake, List.any_eq_true, iff_true_intro hsigners]
      split_ifs with h₁ h₂ h₃
      · simp [h₁, h₂]
      · cases hm : cert.signerIds.mapM c.graceKey <;> simp [h₁, h₂, h₃]
      · simp [h₂, h₃]
      · simp [h₁]
    · have hall' : ¬ ∀ vid ∈ cert.signerIds, c.validatorSet.canSign vid = true := by
        simpa using hall
      simp [hall']
  · simp [hnodup]

/-- A validator signed the precommit a certificate is about, with its registered key or,
within the grace window, with its previous key. -/
def SignedPrecommit (bls : IdealBls) (c : TendermintConsensus) (cert : CommitCertificate)
    (v : ValidatorInfo) : Prop :=
  (∃ pk, v.blsPublicKey = some pk ∧ bls.Signed pk (c.certificateMessage cert)) ∨
    v.inGrace c.epoch = true ∧
      ∃ pk, v.blsPublicKeyPrev = some pk ∧ bls.Signed pk (c.certificateMessage cert)

private lemma exists_mem_of_mapM {α β : Type} {f : α → Option β} {l : List α} {ys : List β}
    (h : l.mapM f = some ys) : ∀ x ∈ l, ∃ y ∈ ys, f x = some y := by
  induction l generalizing ys with
  | nil => simp
  | cons a l ih =>
    simp only [mapM_cons, bind_eq_bind, bind_eq_some_iff] at h
    obtain ⟨y, hy, zs, hzs, hys⟩ := h
    obtain rfl : y :: zs = ys := by simpa using hys
    intro x hx
    rcases List.mem_cons.mp hx with rfl | hx
    · exact ⟨y, .head _, hy⟩
    · obtain ⟨z, hz, hfz⟩ := ih hzs x hx
      exact ⟨z, .tail _ hz, hfz⟩

variable {c : TendermintConsensus} {cert : CommitCertificate}

/-- Every signer of an accepted certificate is a known validator that signed. -/
lemma signedPrecommit_of_verify {bls : IdealBls} {allow : Bool}
    (h : c.verifyCommitCertificateInner bls.toBls cert allow = true) :
    ∀ vid ∈ cert.signerIds, ∃ v, c.validatorSet.get vid = some v ∧
      c.SignedPrecommit bls cert v := by
  obtain ⟨-, hcan, -, hagg⟩ := (verifyCommitCertificateInner_iff _ _ _ _).mp h
  intro vid hvid
  obtain ⟨v, pk, hv, hpk, -⟩ := canSign_iff.mp (hcan vid hvid)
  refine ⟨v, hv, ?_⟩
  rcases hagg with hagg | ⟨-, pks, hpks, hagg⟩
  · -- first pass: the registered keys
    refine .inl ⟨pk, hpk, (bls.aggregateVerify_sound hagg).2 pk ?_⟩
    exact List.mem_filterMap.mpr ⟨vid, hvid, by simp [currentKey, hv, hpk]⟩
  · -- second pass: the previous key for every signer in its grace window
    obtain ⟨key, hmem, hkey⟩ := exists_mem_of_mapM hpks vid hvid
    have hsigned := (bls.aggregateVerify_sound hagg).2 key hmem
    simp only [graceKey, hv] at hkey
    split_ifs at hkey with hgrace
    · cases hprev : v.blsPublicKeyPrev with
      | none =>
        rw [hprev] at hkey
        exact .inl ⟨key, hkey, hsigned⟩
      | some prev =>
        rw [hprev, some_or] at hkey
        exact .inr ⟨hgrace, key, by rw [hprev, hkey], hsigned⟩
    · exact .inl ⟨key, hkey, hsigned⟩

/-! ### The strict verifier -/

/-- What a commit certificate is meant to prove: its non-jailed signers hold strictly more
than two thirds of the stake of the non-jailed set, and each of them signed. -/
def CertificateSound (bls : IdealBls) (c : TendermintConsensus) (cert : CommitCertificate) : Prop :=
  2 * c.validatorSet.totalStake < 3 * (cert.signerIds.dedup.map c.validatorSet.votingStake).sum ∧
    ∀ vid ∈ cert.signerIds, ∀ v, c.validatorSet.get vid = some v → v.jailed = false →
      c.SignedPrecommit bls cert v

/-- If the jailed validators cannot tip a group of signers over the threshold, then every
accepted certificate proves what it is meant to prove. -/
lemma certificateSound_of_jailedCannotTip {bls : IdealBls} (htip : c.validatorSet.JailedCannotTip)
    (h : c.verifyCommitCertificate bls.toBls cert = true) : c.CertificateSound bls cert := by
  obtain ⟨hnodup, hcan, hstake, -⟩ := (verifyCommitCertificateInner_iff _ _ _ _).mp h
  refine ⟨?_, fun vid hvid v hv _ => ?_⟩
  · rw [hnodup.dedup]
    by_contra hle
    have hlt := htip cert.signerIds hnodup hcan (by omega)
    have hjailed := c.validatorSet.sum_jailed_le hnodup hcan
    have hsum := satSum_le_sum (cert.signerIds.map c.validatorSet.stakeOf)
    rw [c.validatorSet.sum_stakeOf] at hsum
    have hreach : c.validatorSet.stakeQuorumThreshold ≤ c.signerStake cert := by
      simpa using hstake
    unfold signerStake at hreach
    omega
  · obtain ⟨w, hw, hsigned⟩ := signedPrecommit_of_verify h vid hvid
    rw [hv, some_inj] at hw
    exact hw ▸ hsigned

/-- The certificate listing the non-jailed members of `signers` and all jailed validators that
can sign. -/
def tippedCertificate (c : TendermintConsensus) (signers : List ℕ) : CommitCertificate where
  height := c.height
  round := 0
  blockHash := Hash.zero
  aggregateSignature := []
  signerIds := signers.filter (!c.validatorSet.isJailed ·) ++ c.validatorSet.jailedSigners

section

variable (c : TendermintConsensus)

/-- A stake that is the voting stake of validators that are not jailed counts for the signers, and
for the jailed validators besides. -/
lemma sum_tipped {stake : ℕ → ℕ}
    (h : ∀ {vid}, ¬ c.validatorSet.isJailed vid = true → stake vid = c.validatorSet.votingStake vid)
    (signers : List ℕ) : ((c.tippedCertificate signers).signerIds.map stake).sum =
      (signers.map c.validatorSet.votingStake).sum +
        (c.validatorSet.jailedSigners.map stake).sum := by
  rw [tippedCertificate, map_append, sum_append]
  congr 1
  induction signers with
  | nil => rfl
  | cons vid signers ih =>
    by_cases hj : c.validatorSet.isJailed vid = true
    · simp [hj, ih, votingStake_of_isJailed hj]
    · simp [hj, ih, h hj]

lemma nodup_tipped {signers : List ℕ} (h : signers.Nodup) :
    (c.tippedCertificate signers).signerIds.Nodup := by
  refine List.Nodup.append (h.filter _) ((nodup_dedup _).filter _) fun vid hl hr => ?_
  have hj := (mem_jailedSigners.mp hr).2
  simp [hj] at hl

lemma canSign_tipped {signers : List ℕ} (h : ∀ vid ∈ signers, c.validatorSet.canSign vid = true) :
    ∀ vid ∈ (c.tippedCertificate signers).signerIds, c.validatorSet.canSign vid = true := by
  intro vid hvid
  rcases List.mem_append.mp hvid with hvid | hvid
  · exact h vid (List.mem_filter.mp hvid).1
  · exact (mem_jailedSigners.mp hvid).1

end

/-- Certificate verification is sound exactly for the validator sets whose jailed members
cannot tip a group of signers over the threshold. -/
theorem verifyCommitCertificate_sound_iff (c : TendermintConsensus) :
    (∀ (bls : IdealBls) (cert : CommitCertificate),
      c.verifyCommitCertificate bls.toBls cert = true → c.CertificateSound bls cert) ↔
    c.validatorSet.JailedCannotTip := by
  refine ⟨fun hsound signers hnodup hcan hless => ?_, fun htip bls cert =>
    certificateSound_of_jailedCannotTip htip⟩
  by_contra hreach
  have hnodup' := c.nodup_tipped hnodup
  have hcan' := c.canSign_tipped hcan
  -- everybody signed, and the listed stake reaches the threshold
  have hverify : c.verifyCommitCertificate (IdealBls.ofSigned fun _ _ => true).toBls
      (c.tippedCertificate signers) = true := by
    have hmax := c.validatorSet.stakeQuorumThreshold_le_max
    have hpos := c.validatorSet.stakeQuorumThreshold_pos
    have hsum := c.sum_tipped stakeOf_of_not_isJailed signers
    refine (verifyCommitCertificateInner_iff _ _ _ _).mpr ⟨hnodup', hcan', .inl ?_, .inl ?_⟩
    · rw [signerStake, satSum_eq]
      omega
    · obtain ⟨vid, hvid⟩ : ∃ vid, vid ∈ (c.tippedCertificate signers).signerIds := by
        refine exists_mem_of_ne_nil _ fun hnil => ?_
        rw [hnil, map_nil, sum_nil] at hsum
        omega
      obtain ⟨v, pk, hv, hpk, -⟩ := canSign_iff.mp (hcan' vid hvid)
      have hmem : pk ∈ (c.tippedCertificate signers).signerIds.filterMap
          c.validatorSet.currentKey :=
        List.mem_filterMap.mpr ⟨vid, hvid, by simp [currentKey, hv, hpk]⟩
      simp only [IdealBls.ofSigned, Bool.and_eq_true, Bool.not_eq_true',
        isEmpty_eq_false_iff, List.all_eq_true]
      exact ⟨ne_nil_of_mem hmem, fun _ _ => trivial⟩
  have hbound := (hsound _ _ hverify).1
  have hzero : (c.validatorSet.jailedSigners.map c.validatorSet.votingStake).sum = 0 := by
    refine List.sum_eq_zero fun x hx => ?_
    obtain ⟨vid, hvid, rfl⟩ := List.mem_map.mp hx
    exact votingStake_of_isJailed (mem_jailedSigners.mp hvid).2
  rw [hnodup'.dedup, c.sum_tipped fun _ => rfl] at hbound
  omega

def oneJailed : ValidatorSet where
  validators :=
    [ { id := 1, stake := 300, blsPublicKey := some [1], popVerified := true },
      { id := 2, stake := 300, blsPublicKey := some [2], popVerified := true },
      { id := 3, stake := 200, blsPublicKey := some [3], popVerified := true, jailed := true } ]

/-- With one active signer and the jailed one, a certificate is accepted although its
non-jailed signers hold half of the active stake. -/
theorem verifyCommitCertificate_accepts_half :
    let c := TendermintConsensus.new 1 oneJailed ChainId.empty none 0
    let bls := IdealBls.ofSigned fun pk _ => pk == [1] || pk == [3]
    let cert : CommitCertificate := ⟨1, 0, Hash.zero, [], [1, 3]⟩
    c.verifyCommitCertificate bls.toBls cert = true ∧ ¬ c.CertificateSound bls cert := by
  refine ⟨by decide, fun hsound => ?_⟩
  exact absurd hsound.1 (by decide)

/-! ### The sync verifier -/

def rawSignerStake (c : TendermintConsensus) (signers : List ℕ) : ℕ :=
  (signers.map c.validatorSet.stakeOf).sum

/-- A certificate accepted on the sync path is signed by a third of the total stake, rounded
down. -/
lemma third_le_of_verifyForSync {bls : Bls}
    (hjail : ∀ v ∈ c.validatorSet.validators, v.jailed = false)
    (h : c.verifyCommitCertificateForSync bls cert = true) :
    c.validatorSet.genesisTotal / 3 ≤ c.rawSignerStake cert.signerIds := by
  obtain ⟨-, -, hstake, -⟩ := (verifyCommitCertificateInner_iff _ _ _ _).mp h
  have hsum : c.signerStake cert ≤ c.rawSignerStake cert.signerIds := satSum_le_sum _
  have htotal := c.validatorSet.totalStake_eq_genesisTotal hjail
  rcases hstake with hstake | ⟨-, hstake⟩
  · have := c.validatorSet.two_mul_totalStake_lt
    omega
  · omega

/-- Two groups of distinct known signers overlap in at least the excess over the total. -/
lemma rawSignerStake_add_le (c : TendermintConsensus) {l₁ l₂ : List ℕ} (hn₁ : l₁.Nodup)
    (hn₂ : l₂.Nodup) (h₁ : ∀ vid ∈ l₁, c.validatorSet.canSign vid = true)
    (h₂ : ∀ vid ∈ l₂, c.validatorSet.canSign vid = true) :
    c.rawSignerStake l₁ + c.rawSignerStake l₂ ≤
      (c.validatorSet.validators.map (·.effectiveStake)).sum + c.rawSignerStake (l₁ ∩ l₂) := by
  have hsub : ∀ {l : List ℕ}, (∀ vid ∈ l, c.validatorSet.canSign vid = true) →
      l.toFinset ⊆ c.validatorSet.ids.toFinset := by
    intro l hl vid hvid
    obtain ⟨v, -, hv, -⟩ := canSign_iff.mp (hl vid (List.mem_toFinset.mp hvid))
    exact List.mem_toFinset.mpr (mem_ids_of_get hv)
  have hinter : (l₁ ∩ l₂).toFinset = l₁.toFinset ∩ l₂.toFinset := by
    simp
  have hsum := sum_add_sum_le_sum_add_inter c.validatorSet.stakeOf (hsub h₁) (hsub h₂)
  rw [← hinter, sum_toFinset _ hn₁, sum_toFinset _ hn₂,
    sum_toFinset _ (hn₁.inter l₂)] at hsum
  exact hsum.trans (Nat.add_le_add_right c.validatorSet.sum_stakeOf_ids_le _)

/-- What two certificates accepted on the sync path show about their signers. Each is signed by
a third of the stake; common signers signed both and hold the excess of the two signer stakes
over the total. Only if both certificates also pass the strict verifier is the common stake
more than a third. -/
theorem sync_certificates_common_signers (bls : IdealBls) (c : TendermintConsensus)
    (cert₁ cert₂ : CommitCertificate) (hjail : ∀ v ∈ c.validatorSet.validators, v.jailed = false)
    (h₁ : c.verifyCommitCertificateForSync bls.toBls cert₁ = true)
    (h₂ : c.verifyCommitCertificateForSync bls.toBls cert₂ = true) :
    (∀ vid ∈ cert₁.signerIds ∩ cert₂.signerIds, ∃ v, c.validatorSet.get vid = some v ∧
      c.SignedPrecommit bls cert₁ v ∧ c.SignedPrecommit bls cert₂ v) ∧
    c.validatorSet.genesisTotal / 3 ≤ c.rawSignerStake cert₁.signerIds ∧
    c.validatorSet.genesisTotal / 3 ≤ c.rawSignerStake cert₂.signerIds ∧
    c.rawSignerStake cert₁.signerIds + c.rawSignerStake cert₂.signerIds ≤
      (c.validatorSet.validators.map (·.effectiveStake)).sum +
        c.rawSignerStake (cert₁.signerIds ∩ cert₂.signerIds) ∧
    ((c.validatorSet.validators.map (·.effectiveStake)).sum ≤ u64Max →
      c.verifyCommitCertificate bls.toBls cert₁ = true →
      c.verifyCommitCertificate bls.toBls cert₂ = true →
      (c.validatorSet.validators.map (·.effectiveStake)).sum <
        3 * c.rawSignerStake (cert₁.signerIds ∩ cert₂.signerIds)) := by
  obtain ⟨hn₁, hc₁, -⟩ := (verifyCommitCertificateInner_iff _ _ _ _).mp h₁
  obtain ⟨hn₂, hc₂, -⟩ := (verifyCommitCertificateInner_iff _ _ _ _).mp h₂
  have hoverlap := c.rawSignerStake_add_le hn₁ hn₂ hc₁ hc₂
  refine ⟨fun vid hvid => ?_, third_le_of_verifyForSync hjail h₁,
    third_le_of_verifyForSync hjail h₂, hoverlap, fun hmax hs₁ hs₂ => ?_⟩
  · obtain ⟨hvid₁, hvid₂⟩ := List.mem_inter_iff.mp hvid
    obtain ⟨v, hv, hsigned₁⟩ := signedPrecommit_of_verify h₁ vid hvid₁
    obtain ⟨w, hw, hsigned₂⟩ := signedPrecommit_of_verify h₂ vid hvid₂
    rw [hv, some_inj] at hw
    exact ⟨v, hv, hsigned₁, hw ▸ hsigned₂⟩
  · have hthird : ∀ {cert : CommitCertificate}, c.verifyCommitCertificate bls.toBls cert = true →
        2 * c.validatorSet.totalStake < 3 * c.rawSignerStake cert.signerIds := by
      intro cert hs
      obtain ⟨-, -, hstake, -⟩ := (verifyCommitCertificateInner_iff _ _ _ _).mp hs
      have hstake : c.validatorSet.stakeQuorumThreshold ≤ c.signerStake cert := by
        simpa using hstake
      have hsum : c.signerStake cert ≤ c.rawSignerStake cert.signerIds := satSum_le_sum _
      have := c.validatorSet.two_mul_totalStake_lt
      omega
    have htotal := c.validatorSet.totalStake_eq_genesisTotal hjail
    rw [genesisTotal, satSum_eq_sum hmax] at htotal
    have := hthird hs₁
    have := hthird hs₂
    omega

def fourActive : ValidatorSet where
  validators :=
    [ { id := 1, stake := 25, blsPublicKey := some [1], popVerified := true },
      { id := 2, stake := 25, blsPublicKey := some [2], popVerified := true },
      { id := 3, stake := 25, blsPublicKey := some [3], popVerified := true },
      { id := 4, stake := 25, blsPublicKey := some [4], popVerified := true } ]

def fourActiveNode : TendermintConsensus := .new 1 fourActive ChainId.empty none 0

def certificateBy (signers : List ℕ) (b : UInt8) : CommitCertificate :=
  ⟨1, 0, List.Vector.replicate 32 b, [], signers⟩

/-- Each validator signed its own certificate of a list and nothing else. -/
abbrev onlySigners (certs : List CommitCertificate) : IdealBls :=
  .ofSigned fun pk msg => certs.any fun cert =>
    msg == fourActiveNode.certificateMessage cert &&
      cert.signerIds.any fun vid => fourActive.currentKey vid == some pk

/-- Half of the stake signed one certificate and the other half the other. -/
abbrev halves : IdealBls := onlySigners [certificateBy [1, 2] 0, certificateBy [3, 4] 1]

/-- Both certificates are accepted on the sync path, for two blocks of one height, and no
validator signed both. -/
theorem sync_accepts_disjoint_signers :
    (∀ v ∈ fourActiveNode.validatorSet.validators, v.jailed = false) ∧
    fourActiveNode.verifyCommitCertificateForSync halves.toBls (certificateBy [1, 2] 0) = true ∧
    fourActiveNode.verifyCommitCertificateForSync halves.toBls (certificateBy [3, 4] 1) = true ∧
    (certificateBy [1, 2] 0).height = (certificateBy [3, 4] 1).height ∧
    (certificateBy [1, 2] 0).blockHash ≠ (certificateBy [3, 4] 1).blockHash ∧
    ∀ v ∈ fourActiveNode.validatorSet.validators,
      ¬ (fourActiveNode.SignedPrecommit halves (certificateBy [1, 2] 0) v ∧
        fourActiveNode.SignedPrecommit halves (certificateBy [3, 4] 1) v) := by
  refine ⟨by decide, by decide, by decide, rfl, by decide, fun v hv ⟨h₁, h₂⟩ => ?_⟩
  have hkey : ∀ {cert : CommitCertificate} {pk : Bytes}, v.blsPublicKey = some pk →
      v.blsPublicKeyPrev = none → fourActiveNode.SignedPrecommit halves cert v →
      halves.Signed pk (fourActiveNode.certificateMessage cert) := by
    rintro cert pk hpk hprev (⟨pk', hpk', hs⟩ | ⟨-, pk', hpk', -⟩)
    · rw [hpk, some_inj] at hpk'
      exact hpk' ▸ hs
    · simp [hprev] at hpk'
  have hmem : v ∈ fourActive.validators := hv
  simp only [fourActive, List.mem_cons, not_mem_nil, or_false] at hmem
  rcases hmem with rfl | rfl | rfl | rfl
  · exact absurd (hkey rfl rfl h₂) (by decide)
  · exact absurd (hkey rfl rfl h₂) (by decide)
  · exact absurd (hkey rfl rfl h₁) (by decide)
  · exact absurd (hkey rfl rfl h₁) (by decide)

/-- Two validators signed both of two certificates with three signers each. -/
theorem sync_certificates_common_signers_three :
    let bls := onlySigners [certificateBy [1, 2, 3] 0, certificateBy [2, 3, 4] 1]
    (∀ vid ∈ [2, 3], ∃ v, fourActive.get vid = some v ∧
      fourActiveNode.SignedPrecommit bls (certificateBy [1, 2, 3] 0) v ∧
      fourActiveNode.SignedPrecommit bls (certificateBy [2, 3, 4] 1) v) ∧
    100 < 3 * fourActiveNode.rawSignerStake [2, 3] := by
  intro bls
  obtain ⟨hsigned, -, -, -, hthird⟩ := sync_certificates_common_signers bls fourActiveNode
    (certificateBy [1, 2, 3] 0) (certificateBy [2, 3, 4] 1) (by decide) (by decide) (by decide)
  exact ⟨hsigned, hthird (by decide) (by decide) (by decide)⟩

end TendermintConsensus

end EvaporChain
