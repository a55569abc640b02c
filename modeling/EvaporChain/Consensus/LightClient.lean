import EvaporChain.Consensus.Certificate

/-!
# The light client

`LightClientVerifier` accepts a header on the strength of a trusted one: the commit
certificate is checked against the validator set the header itself carries, and for a height
gap above one the signers' ids must overlap the trusted set by stake. Neither check looks at
the keys of the trusted set; `verify_signedByTrusted_iff` says what that leaves open.
-/

namespace EvaporChain

open Core

/-- Trust period in seconds: two weeks. -/
def trustPeriodSecs : ℕ := 14 * 24 * 3600

def trustThresholdNumerator : ℕ := 1
def trustThresholdDenominator : ℕ := 3
def maxSkipHeightGap : ℕ := 10000

structure LightBlockHeader where
  height : ℕ
  blockHash : Hash
  validatorSet : ValidatorSet
  commitCertificate : CommitCertificate

structure TrustedState where
  header : LightBlockHeader
  trustExpiresAt : ℕ

inductive VerificationResult
  | valid
  | invalid (reason : String)
  | needBisection (trustedHeight targetHeight : ℕ)
deriving DecidableEq

structure LightClientVerifier where
  trustedStates : Dict ℕ TrustedState
  trustPeriod : ℕ
  chainId : ChainId

namespace LightClientVerifier

variable (bls : Bls) (lc : LightClientVerifier)

def new (genesis : LightBlockHeader) (currentTime : ℕ) (chainId : ChainId) :
    LightClientVerifier where
  trustedStates := AList.singleton genesis.height
    ⟨genesis, (currentTime + trustPeriodSecs) % 2 ^ 64⟩
  trustPeriod := trustPeriodSecs
  chainId := chainId

/-- The highest trusted state at or below a height. -/
def bestTrustedStateFor (targetHeight : ℕ) : Option TrustedState :=
  ((lc.trustedStates.keys.filter (· ≤ targetHeight)).max?).bind lc.trustedStates.lookup

/-- Why a commit certificate is rejected. -/
inductive CertificateError
  | heightMismatch (certHeight headerHeight : ℕ)
  | blockHashMismatch
  | duplicateSigners
  | insufficientSigners (signers quorum : ℕ)
  | noBlsKey (signer : ℕ)
  | unknownSigner (signer : ℕ)
  | insufficientStake (signingStake totalStake : ℕ)
  | aggregateFailed

/-- Text of a rejection. -/
def CertificateError.message : CertificateError → String
  | .heightMismatch c h      => s!"Certificate height {c} != header height {h}"
  | .blockHashMismatch       => "Certificate block hash mismatch"
  | .duplicateSigners        => "Duplicate signer IDs in commit certificate"
  | .insufficientSigners n q => s!"Insufficient signers: {n} < quorum {q}"
  | .noBlsKey vid            => s!"Signer {vid} has no BLS key"
  | .unknownSigner vid       => s!"Signer {vid} not in validator set"
  | .insufficientStake s t   => s!"Insufficient signing stake: {s} is not strictly > 2/3 of {t}"
  | .aggregateFailed         => "BLS aggregate signature verification failed"

/-- The signer loop: keys in order and the saturating sum of the self-bonded stakes. -/
def scanSigners (vs : ValidatorSet) :
    List ℕ → List Bytes → ℕ → Except CertificateError (List Bytes × ℕ)
  | [], pks, stake => .ok (pks, stake)
  | vid :: vids, pks, stake =>
    match vs.get vid with
    | none => .error (.unknownSigner vid)
    | some v =>
      match v.blsPublicKey with
      | none => .error (.noBlsKey vid)
      | some pk => scanSigners vs vids (pks ++ [pk]) (satAdd stake v.stake)

def certificateMessage (header : LightBlockHeader) : Bytes :=
  blsVoteMessage lc.chainId header.commitCertificate.height header.commitCertificate.round
    (some header.commitCertificate.blockHash) .precommit

/-- Check a header's certificate against the validator set the header carries. -/
def verifyCommitCertificate (header : LightBlockHeader) : Except CertificateError Unit :=
  let cert := header.commitCertificate
  let quorum := header.validatorSet.activeCount * 2 / 3 + 1
  let total := header.validatorSet.totalStake
  if cert.height ≠ header.height then .error (.heightMismatch cert.height header.height)
  else if cert.blockHash ≠ header.blockHash then .error .blockHashMismatch
  else if ¬ cert.signerIds.Nodup then .error .duplicateSigners
  else if cert.signerIds.length < quorum then
    .error (.insufficientSigners cert.signerIds.length quorum)
  else
    match scanSigners header.validatorSet cert.signerIds [] 0 with
    | .error e => .error e
    | .ok (pks, signing) =>
      if signing * 3 ≤ total * 2 then .error (.insufficientStake signing total)
      else if bls.aggregateVerify (lc.certificateMessage header) cert.aggregateSignature pks then
        .ok ()
      else .error .aggregateFailed

/-- Self-bonded stake, in the trusted set, of the ids a certificate lists (`+=` wraps). -/
def overlapStake (trusted untrusted : LightBlockHeader) : ℕ :=
  (untrusted.commitCertificate.signerIds.map fun vid =>
    ((trusted.validatorSet.get vid).map (·.stake)).getD 0).sum % 2 ^ 64

/-- Skip verification: the signers' ids must hold a third of the trusted stake. -/
def checkValidatorOverlap (trusted untrusted : LightBlockHeader) : Except String Unit :=
  let threshold :=
    trusted.validatorSet.totalStake * trustThresholdNumerator / trustThresholdDenominator
  let overlap := overlapStake trusted untrusted
  if threshold ≤ overlap then .ok ()
  else .error s!"Insufficient validator overlap: {overlap} < threshold {threshold}"

/-- Drop the lowest trusted height. -/
def removeOldest (states : Dict ℕ TrustedState) : Dict ℕ TrustedState :=
  match states.keys.min? with
  | none => states
  | some oldest => states.erase oldest

/-- Trust a header; at most a hundred states are kept. -/
def addTrusted (header : LightBlockHeader) (currentTime : ℕ) : LightClientVerifier :=
  let states := lc.trustedStates.insert header.height
    ⟨header, (currentTime + lc.trustPeriod) % 2 ^ 64⟩
  { lc with trustedStates := removeOldest^[states.keys.length - 100] states }

/-- Verify an untrusted header against the trusted states. -/
def verify (untrusted : LightBlockHeader)
    (currentTime : ℕ) : VerificationResult × LightClientVerifier :=
  match lc.bestTrustedStateFor (untrusted.height - 1) with
  | none         => (.invalid "No trusted state found", lc)
  | some trusted =>
    if trusted.trustExpiresAt < currentTime then
      (.invalid "Trust period expired — need fresh checkpoint", lc)
    else
      match lc.verifyCommitCertificate bls untrusted with
      | .error e => (.invalid s!"Invalid certificate: {e.message}", lc)
      | .ok () =>
        let gap := untrusted.height - trusted.header.height
        if gap = 1 then (.valid, lc.addTrusted untrusted currentTime)
        else if maxSkipHeightGap < gap then
          (.needBisection trusted.header.height untrusted.height, lc)
        else
          match checkValidatorOverlap trusted.header untrusted with
          | .ok () => (.valid, lc.addTrusted untrusted currentTime)
          | .error _ => (.needBisection trusted.header.height untrusted.height, lc)

/-! ### What acceptance shows -/

variable (header : LightBlockHeader)

/-- Keys the header's own validator set gives to the signers of its certificate. -/
def signerKeys : List Bytes :=
  header.commitCertificate.signerIds.filterMap header.validatorSet.currentKey

/-- The loop collects keys and own stakes if every signer has a key. -/
lemma scanSigners_eq_ok_iff {vs : ValidatorSet} {vids : List ℕ} {pks : List Bytes} {stake : ℕ}
    {result : List Bytes × ℕ} :
    scanSigners vs vids pks stake = .ok result ↔ (∀ vid ∈ vids, (vs.currentKey vid).isSome) ∧
      result = (pks ++ vids.filterMap vs.currentKey,
        (vids.map vs.ownStake).foldl satAdd stake) := by
  induction vids generalizing pks stake with
  | nil => simp [scanSigners, @eq_comm _ result]
  | cons vid vids ih =>
    cases hv : vs.get vid with
    | none => simp [scanSigners, ValidatorSet.currentKey, hv]
    | some v =>
      cases hpk : v.blsPublicKey <;>
        simp [scanSigners, ValidatorSet.currentKey, ValidatorSet.ownStake, hv, hpk, ih]

/-- The checks on a certificate other than the aggregate signature. -/
structure WellFormedCertificate : Prop where
  height : header.commitCertificate.height = header.height
  blockHash : header.commitCertificate.blockHash = header.blockHash
  nodup : header.commitCertificate.signerIds.Nodup
  quorum : header.validatorSet.activeCount * 2 / 3 + 1 ≤ header.commitCertificate.signerIds.length
  keyed : ∀ vid ∈ header.commitCertificate.signerIds, (header.validatorSet.currentKey vid).isSome
  stake : header.validatorSet.totalStake * 2 <
    satSum (header.commitCertificate.signerIds.map header.validatorSet.ownStake) * 3

lemma verifyCommitCertificate_iff (header : LightBlockHeader) :
    lc.verifyCommitCertificate bls header = .ok () ↔
      WellFormedCertificate header ∧ bls.aggregateVerify (lc.certificateMessage header)
        header.commitCertificate.aggregateSignature (signerKeys header) = true := by
  unfold verifyCommitCertificate
  constructor
  · intro h
    dsimp only at h
    split_ifs at h with h₁ h₂ h₃ h₄
    split at h
    · cases h
    · rename_i pks signing hscan
      obtain ⟨hkeyed, hresult⟩ := scanSigners_eq_ok_iff.mp hscan
      cases hresult
      split_ifs at h with h₅ h₆
      exact ⟨⟨not_not.mp h₁, not_not.mp h₂, h₃, not_lt.mp h₄, hkeyed, not_le.mp h₅⟩, h₆⟩
  · rintro ⟨hcert, hagg⟩
    have hscan : scanSigners header.validatorSet header.commitCertificate.signerIds [] 0 =
        .ok (signerKeys header, satSum _) := scanSigners_eq_ok_iff.mpr ⟨hcert.keyed, rfl⟩
    simp [hcert.height, hcert.blockHash, hcert.nodup, not_lt.mpr hcert.quorum, hscan,
      not_le.mpr hcert.stake, hagg]

variable {header} in
lemma WellFormedCertificate.signerKeys_ne_nil (h : WellFormedCertificate header) :
    signerKeys header ≠ [] := by
  obtain ⟨vid, hvid⟩ := List.exists_mem_of_length_pos (Nat.succ_pos _ |>.trans_le h.quorum)
  obtain ⟨pk, hpk⟩ := Option.isSome_iff_exists.mp (h.keyed vid hvid)
  exact List.ne_nil_of_mem (List.mem_filterMap.mpr ⟨vid, hvid, hpk⟩)

/-- The header passes every check but that of its signatures. -/
def Acceptable (u : LightBlockHeader) (now : ℕ) : Prop :=
  WellFormedCertificate u ∧ ∃ trusted, lc.bestTrustedStateFor (u.height - 1) = some trusted ∧
    now ≤ trusted.trustExpiresAt ∧ (u.height - trusted.header.height = 1 ∨
      u.height - trusted.header.height ≤ maxSkipHeightGap ∧
        trusted.header.validatorSet.totalStake * trustThresholdNumerator /
          trustThresholdDenominator ≤ overlapStake trusted.header u)

lemma verify_valid_iff (u : LightBlockHeader) (now : ℕ) :
    (lc.verify bls u now).1 = .valid ↔ lc.Acceptable u now ∧
      bls.aggregateVerify (lc.certificateMessage u) u.commitCertificate.aggregateSignature
        (signerKeys u) = true := by
  rw [Acceptable, and_right_comm, ← verifyCommitCertificate_iff bls lc]
  cases hbest : lc.bestTrustedStateFor (u.height - 1) with
  | none => simp [verify, hbest]
  | some trusted =>
    cases hcert : lc.verifyCommitCertificate bls u with
    | error _ => by_cases hexp : trusted.trustExpiresAt < now <;> simp [verify, hbest, hexp, hcert]
    | ok _ =>
      simp only [verify, hbest, hcert, Option.some_inj, exists_eq_left', true_and,
        checkValidatorOverlap]
      split_ifs with hexp hgap hskip hoverlap
      · simp [not_le.mpr hexp]
      · simp [not_lt.mp hexp, hgap]
      · simp [hgap, not_le.mpr hskip]
      · simp [not_lt.mp hexp, not_lt.mp hskip, hoverlap]
      · simp [hgap, hoverlap]

/-- Non-jailed validators of the trusted header behind `u` that hold more than a third of its
stake signed a precommit for `u`, with the keys recorded for them in the trusted header. -/
def SignedByTrusted (bls : IdealBls) (lc : LightClientVerifier) (u : LightBlockHeader) : Prop :=
  ∃ trusted, lc.bestTrustedStateFor (u.height - 1) = some trusted ∧
    ∃ signers : List ValidatorInfo, signers.Sublist trusted.header.validatorSet.active ∧
      (∀ v ∈ signers, ∃ pk, v.blsPublicKey = some pk ∧ bls.Signed pk (lc.certificateMessage u)) ∧
      trusted.header.validatorSet.totalStake < 3 * (signers.map (·.effectiveStake)).sum

/-- Trusted validators whose recorded key the untrusted header uses for one of its signers. -/
def keyOverlap (trusted u : LightBlockHeader) : List ValidatorInfo :=
  trusted.validatorSet.active.filter fun v => v.blsPublicKey.any (signerKeys u).contains

/-- The keys the header uses for its signers are, for more than a third of the trusted stake,
the keys recorded in the trusted header. -/
def KeysOverlapByThird (u : LightBlockHeader) : Prop :=
  ∃ trusted, lc.bestTrustedStateFor (u.height - 1) = some trusted ∧
    trusted.header.validatorSet.totalStake <
      3 * ((keyOverlap trusted.header u).map (·.effectiveStake)).sum

/-- An accepted header is signed under the keys of the trusted header by more than a third of
its stake, whatever the signature scheme, exactly when the keys it uses for its signers are
the trusted ones for more than a third of the trusted stake. -/
theorem verify_signedByTrusted_iff (u : LightBlockHeader) (now : ℕ) :
    (∀ bls : IdealBls, (lc.verify bls.toBls u now).1 = .valid → lc.SignedByTrusted bls u) ↔
      (lc.Acceptable u now → lc.KeysOverlapByThird u) := by
  constructor
  · intro h hacc
    -- the scheme in which only the header's own signers signed, and only this message
    let signed : Bytes → Bytes → Bool := fun pk msg =>
      (signerKeys u).contains pk && msg == lc.certificateMessage u
    have hvalid : (lc.verify (IdealBls.ofSigned signed).toBls u now).1 = .valid := by
      refine (verify_valid_iff _ _ _ _).mpr ⟨hacc, ?_⟩
      have hne := hacc.1.signerKeys_ne_nil
      simpa [IdealBls.ofSigned, signed] using hne
    obtain ⟨trusted', hbest', signers, hsub, hsigned, hthird⟩ := h _ hvalid
    refine ⟨trusted', hbest', hthird.trans_le (Nat.mul_le_mul_left 3 ?_)⟩
    have hfilter : signers.filter (fun v => v.blsPublicKey.any (signerKeys u).contains) =
        signers := by
      refine List.filter_eq_self.mpr fun v hv => ?_
      obtain ⟨pk, hpk, hs⟩ := hsigned v hv
      have hs : signed pk (lc.certificateMessage u) = true := hs
      simpa [hpk, signed] using hs
    have hsub' : signers.Sublist (keyOverlap trusted'.header u) := by
      have := hsub.filter fun v => v.blsPublicKey.any (signerKeys u).contains
      rwa [hfilter] at this
    exact (hsub'.map _).sum_le_sum fun _ _ => Nat.zero_le _
  · intro h bls hvalid
    obtain ⟨hacc, hagg⟩ := (verify_valid_iff _ _ _ _).mp hvalid
    obtain ⟨trusted, hbest, hthird⟩ := h hacc
    refine ⟨trusted, hbest, _, List.filter_sublist, fun v hv => ?_, hthird⟩
    have hkey := (List.mem_filter.mp hv).2
    cases hpk : v.blsPublicKey with
    | none => simp [hpk] at hkey
    | some pk =>
      refine ⟨pk, rfl, (bls.aggregateVerify_sound hagg).2 pk ?_⟩
      simpa [hpk] using hkey

/-- A header over a single validator, certified by that validator. -/
def soleHeader (height vid : ℕ) (key : Bytes) : LightBlockHeader where
  height := height
  blockHash := Hash.zero
  validatorSet := ⟨[{ id := vid, stake := 10, blsPublicKey := some key }]⟩
  commitCertificate := ⟨height, 0, Hash.zero, [], [vid]⟩

/-- A client that trusts a header of validator 1 accepts the next header from validator 9, whose
key it has never seen and who alone signed. -/
theorem verify_accepts_unknown_keys :
    let lc := LightClientVerifier.new (soleHeader 1 1 [1]) 0 ChainId.empty
    let bls := IdealBls.ofSigned fun pk _ => pk == [9]
    (lc.verify bls.toBls (soleHeader 2 9 [9]) 0).1 = .valid ∧
      ¬ lc.SignedByTrusted bls (soleHeader 2 9 [9]) := by
  refine ⟨by decide, ?_⟩
  rintro ⟨trusted, hbest, signers, hsub, hsigned, hthird⟩
  obtain rfl : ⟨soleHeader 1 1 [1], trustPeriodSecs⟩ = trusted := Option.some.inj hbest
  cases signers with
  | nil => exact absurd hthird (by decide)
  | cons v signers =>
    obtain ⟨pk, hpk, hs⟩ := hsigned v (.head _)
    have hv := hsub.subset (.head _)
    obtain rfl : v = { id := 1, stake := 10, blsPublicKey := some [1] } := List.mem_singleton.mp hv
    obtain rfl : [1] = pk := Option.some.inj hpk
    exact absurd hs (by decide)

end LightClientVerifier

end EvaporChain
