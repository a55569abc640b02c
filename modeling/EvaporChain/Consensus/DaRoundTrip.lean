import EvaporChain.Consensus.DaCertificate
import EvaporChain.Consensus.DataAvailability

/-!
# Data-availability certificates on other nodes

The builder of a certificate adds up the stakes that the attestations state, the verifier the own
stakes of the attesters, under the keys they have by then. Stake delegated to an attester counts for
the total only.
-/

namespace EvaporChain.TendermintConsensus

open Core

section

variable (env : Env) (c : TendermintConsensus)

/-- The signature of an attestation verifies under the key it names. -/
def attestationSigned (att : DAAttestation) : Bool :=
  env.bls.verify (daAttestationMessage att.blockNumber att.dataRoot att.validatorId
    att.samplesVerified att.stake) att.signature att.publicKey

/-- Attestations the certificate builder accepts: signed, for the block, one per validator. -/
def acceptedAttestations (blockNumber : ℕ) (dataRoot : Hash) :
    List DAAttestation → List ℕ → List DAAttestation
  | [], _ => []
  | att :: atts, seen =>
    if att.blockNumber ≠ blockNumber ∨ att.dataRoot ≠ dataRoot ∨ att.validatorId ∈ seen ∨
        attestationSigned env att = false then acceptedAttestations blockNumber dataRoot atts seen
    else att :: acceptedAttestations blockNumber dataRoot atts (att.validatorId :: seen)

/-- Certificate from the collected attestations, if the stakes they state are a supermajority. -/
def tryBuildDaCertificate (blockNumber : ℕ) (dataRoot : Hash) : Option DACertificate :=
  let sorted := (c.countedAttestations blockNumber).insertionSort
    fun a b => a.validatorId ≤ b.validatorId
  let atts := acceptedAttestations env blockNumber dataRoot sorted []
  let attested := (atts.map (·.stake)).sum % 2 ^ 64
  if c.validatorSet.totalStake * 2 < attested * 3 then
    some ⟨blockNumber, dataRoot, atts, attested, c.validatorSet.totalStake⟩
  else none

variable (number : ℕ) (root : Hash)

/-- The attestation that the builder takes from a validator: the first of those stored for the block
that counts, is for the root and has a signature of the key it names. -/
def attestationBy (vid : ℕ) : Option DAAttestation :=
  (c.countedAttestations number).find? fun att =>
    att.validatorId = vid ∧ att.blockNumber = number ∧ att.dataRoot = root ∧
      attestationSigned env att

/-- Validators with a key whose attestation for a block is taken. -/
def attesters : List ℕ :=
  c.validatorSet.ids.dedup.filter fun vid =>
    (c.validatorSet.currentKey vid).isSome && (c.attestationBy env number root vid).isSome

variable {env c number root}

/-- Elements that are sorted alike stay in order. -/
lemma filter_insertionSort {α : Type} (key : α → ℕ) {p : α → Bool} {n : ℕ}
    (hp : ∀ a, p a → key a = n) (l : List α) :
    (l.insertionSort fun a b => key a ≤ key b).filter p = l.filter p := by
  have hpairwise : (l.filter p).Pairwise fun a b => key a ≤ key b := by
    refine List.pairwise_of_forall_mem_list fun a ha b hb => ?_
    rw [hp a (List.of_mem_filter ha), hp b (List.of_mem_filter hb)]
  have hsub := (List.sublist_insertionSort hpairwise List.filter_sublist).filter p
  rw [List.filter_filter] at hsub
  simp only [Bool.and_self] at hsub
  exact (hsub.eq_of_length ((List.perm_insertionSort _ l).filter p).length_eq.symm).symm

/-- What the builder accepts. -/
lemma mem_acceptedAttestations {att : DAAttestation} (atts : List DAAttestation) (seen : List ℕ) :
    att ∈ acceptedAttestations env number root atts seen ↔ att.validatorId ∉ seen ∧
      atts.find? (fun a => a.validatorId = att.validatorId ∧ a.blockNumber = number ∧
        a.dataRoot = root ∧ attestationSigned env a) = some att := by
  fun_induction acceptedAttestations with
  | case1 => simp
  | case2 a atts seen hrefused ih =>
    rw [ih, List.find?_cons]
    split
    · rename_i htaken
      simp only [decide_eq_true_eq] at htaken
      obtain ⟨hvid, hnumber, hroot, hsigned⟩ := htaken
      have hseen : att.validatorId ∈ seen := by
        simpa [hnumber, hroot, hsigned, hvid] using hrefused
      simp [hseen]
    · rfl
  | case3 a atts seen haccepted ih =>
    simp only [not_or, not_not, Bool.not_eq_false] at haccepted
    obtain ⟨hnumber, hroot, hseen, hsigned⟩ := haccepted
    rw [List.mem_cons, ih, List.find?_cons, List.mem_cons, not_or]
    by_cases hvid : a.validatorId = att.validatorId
    · simp only [hvid, hnumber, hroot, hsigned, and_self, decide_true, Option.some.injEq,
        not_true_eq_false, false_and, or_false]
      exact ⟨fun h => ⟨hvid ▸ hseen, h.symm⟩, fun h => h.2.symm⟩
    · have hne : att ≠ a := fun h => hvid (h ▸ rfl)
      simp [hvid, hne, Ne.symm hvid]

lemma nodup_acceptedAttestations (atts : List DAAttestation) (seen : List ℕ) :
    ((acceptedAttestations env number root atts seen).map (·.validatorId)).Nodup := by
  fun_induction acceptedAttestations with
  | case1 => simp
  | case2 seen a atts hrefused ih => exact ih
  | case3 seen a atts haccepted ih =>
    rw [List.map_cons, List.nodup_cons]
    refine ⟨fun hmem => ?_, ih⟩
    obtain ⟨b, hb, hid⟩ := List.mem_map.mp hmem
    exact ((mem_acceptedAttestations _ _).mp hb).1 (hid ▸ .head _)

lemma attestationBy_spec {vid : ℕ} {att : DAAttestation}
    (h : c.attestationBy env number root vid = some att) : att.validatorId = vid ∧
      att.blockNumber = number ∧ att.dataRoot = root ∧ attestationSigned env att = true := by
  have hfound := List.find?_some h
  simpa only [decide_eq_true_eq] using hfound

section

variable {cert : DACertificate}
  (h : c.tryBuildDaCertificate env number root = some cert)

include h

lemma mem_attestations_of_tryBuild {att : DAAttestation} :
    att ∈ cert.attestations ↔ c.attestationBy env number root att.validatorId = some att := by
  simp only [tryBuildDaCertificate, Option.ite_none_right_eq_some, Option.some.injEq] at h
  obtain ⟨-, rfl⟩ := h
  rw [mem_acceptedAttestations, and_iff_right List.not_mem_nil, ← List.head?_filter,
    filter_insertionSort DAAttestation.validatorId (n := att.validatorId) (by simp +contextual),
    List.head?_filter, attestationBy]

lemma mem_attesters_iff {vid : ℕ} : vid ∈ c.attesters env number root ↔
    vid ∈ c.daSigners cert.attestations := by
  simp only [daSigners, attesters, List.mem_filter, List.mem_map, List.mem_dedup,
    Bool.and_eq_true]
  constructor
  · rintro ⟨-, hkey, hsome⟩
    obtain ⟨att, hatt⟩ := Option.isSome_iff_exists.mp hsome
    obtain ⟨rfl, -⟩ := attestationBy_spec hatt
    exact ⟨⟨att, (mem_attestations_of_tryBuild h).mpr hatt, rfl⟩, hkey⟩
  · rintro ⟨⟨att, hatt, rfl⟩, hkey⟩
    obtain ⟨pk, hpk⟩ := Option.isSome_iff_exists.mp hkey
    obtain ⟨v, hv, -⟩ := Option.bind_eq_some_iff.mp hpk
    rw [(mem_attestations_of_tryBuild h).mp hatt]
    exact ⟨ValidatorSet.mem_ids_of_get hv, hkey, rfl⟩

end

structure BuiltCertificate (env : Env) (c : TendermintConsensus) (cert : DACertificate) :
    Prop where
  totalStake : cert.totalStake = c.validatorSet.totalStake
  supermajority : 2 * cert.totalStake < 3 * cert.attestedStake
  nonempty : cert.attestations ≠ []
  before : cert.blockNumber ≤ c.height
  recent : c.height - 12 ≤ cert.blockNumber
  content : ∀ att ∈ cert.attestations,
    att.blockNumber = cert.blockNumber ∧ att.dataRoot = cert.dataRoot
  nodup : (cert.attestations.map (·.validatorId)).Nodup
  signed : ∀ att ∈ cert.attestations, attestationSigned env att = true

lemma builtCertificate_of_tryBuild {cert : DACertificate}
    (h : c.tryBuildDaCertificate env number root = some cert) (hbefore : number ≤ c.height)
    (hrecent : c.height - 12 ≤ number) : BuiltCertificate env c cert := by
  have htaken (att : DAAttestation) (hatt : att ∈ cert.attestations) :=
    (attestationBy_spec ((mem_attestations_of_tryBuild h).mp hatt)).2
  simp only [tryBuildDaCertificate, Option.ite_none_right_eq_some, Option.some.injEq] at h
  obtain ⟨hstake, rfl⟩ := h
  refine ⟨rfl, by dsimp only; omega, ?_, hbefore, hrecent, ?_, nodup_acceptedAttestations .., ?_⟩
  · intro hnil
    dsimp only at hnil
    rw [hnil] at hstake
    simp at hstake
  · exact fun att hatt => ⟨(htaken att hatt).1, (htaken att hatt).2.1⟩
  · exact fun att hatt => (htaken att hatt).2.2

/-- Under a registered key an attestation is valid if it names the key and verifies under it. -/
lemma attestationValid_of_currentKey {att : DAAttestation} {pk : Bytes}
    (hkey : c.validatorSet.currentKey att.validatorId = some pk) :
    c.attestationValid env att = (pk == att.publicKey && attestationSigned env att) := by
  obtain ⟨v, hget, hpk⟩ := Option.bind_eq_some_iff.mp hkey
  simp only [attestationValid, hget, hpk]
  rfl

/-- Of the checks on a certificate that a node built, those of keys and own stakes remain. -/
lemma BuiltCertificate.verify_iff {p : TendermintConsensus} {block : Block} {bytes : Bytes}
    {cert : DACertificate} (hbuilt : BuiltCertificate env p cert)
    (hvs : c.validatorSet = p.validatorSet) (hnumber : block.number = p.height)
    (hbytes : block.daCertificate = some bytes)
    (hdecode : env.decodeDaCertificate bytes = some cert) :
    c.verifyDaCertificate env block = true ↔ (∀ att ∈ cert.attestations, ∀ pk,
        p.validatorSet.currentKey att.validatorId = some pk → pk = att.publicKey) ∧
      2 * p.validatorSet.totalStake <
        3 * satSum ((p.daSigners cert.attestations).map p.validatorSet.ownStake) := by
  have hsigners : c.daSigners cert.attestations = p.daSigners cert.attestations := by
    simp [daSigners, hvs]
  rw [verifyDaCertificate_iff hbytes hdecode, hsigners, hvs, hnumber]
  constructor
  · rintro ⟨htotal, -, -, -, -, hbound, hstake⟩
    refine ⟨fun att hatt pk hpk => ?_, htotal ▸ hstake⟩
    have hvalid := hbound.valid att hatt (by rw [hvs, hpk]; rfl)
    rw [attestationValid_of_currentKey (hvs ▸ hpk)] at hvalid
    simp only [Bool.and_eq_true, beq_iff_eq] at hvalid
    exact hvalid.1
  · rintro ⟨hkeys, hstake⟩
    refine ⟨hbuilt.totalStake, hbuilt.supermajority, hbuilt.nonempty, hbuilt.before, hbuilt.recent,
      ⟨hbuilt.content, hbuilt.nodup, fun att hatt hsome => ?_⟩, hbuilt.totalStake ▸ hstake⟩
    obtain ⟨pk, hpk⟩ := Option.isSome_iff_exists.mp hsome
    rw [attestationValid_of_currentKey hpk, hkeys att hatt pk (hvs ▸ hpk), beq_self_eq_true]
    exact hbuilt.signed att hatt

end

/-- A certificate that a node built for a block verifies under the same validator set exactly if
the attesters still have the keys they signed with and two thirds without delegations. -/
theorem da_certificate_round_trip_iff (env : Env) (c d : TendermintConsensus)
    (hset : d.validatorSet = c.validatorSet) (block : Block) (root : Hash) (cert : DACertificate)
    (bytes : Bytes) (hbuild : c.tryBuildDaCertificate env block.number root = some cert)
    (hdecode : env.decodeDaCertificate bytes = some cert)
    (hblock : block.daCertificate = some bytes) :
    d.verifyDaCertificate env block = true ↔
      (∀ vid ∈ c.attesters env block.number root, c.validatorSet.currentKey vid =
        (c.attestationBy env block.number root vid).map (·.publicKey)) ∧
      2 * c.validatorSet.totalStake <
        3 * satSum ((c.attesters env block.number root).map c.validatorSet.ownStake) := by
  -- the builder does not look at the height of the node
  have hbuilt : BuiltCertificate env { c with height := block.number } cert :=
    builtCertificate_of_tryBuild hbuild le_rfl (Nat.sub_le _ _)
  have hperm : (c.attesters env block.number root).Perm (c.daSigners cert.attestations) :=
    (List.perm_ext_iff_of_nodup ((List.nodup_dedup _).filter _) (hbuilt.nodup.filter _)).mpr
      fun _ => mem_attesters_iff hbuild
  rw [hbuilt.verify_iff hset rfl hblock hdecode, satSum_eq, satSum_eq, (hperm.map _).sum_eq]
  refine and_congr_left' ⟨fun h vid hvid => ?_, fun h att hatt pk hpk => ?_⟩
  · simp only [attesters, List.mem_filter, Bool.and_eq_true] at hvid
    obtain ⟨pk, hpk⟩ := Option.isSome_iff_exists.mp hvid.2.1
    obtain ⟨att, hatt⟩ := Option.isSome_iff_exists.mp hvid.2.2
    obtain ⟨rfl, -⟩ := attestationBy_spec hatt
    rw [hatt, hpk, h att ((mem_attestations_of_tryBuild hbuild).mpr hatt) pk hpk]
    rfl
  · have hsigner : att.validatorId ∈ c.daSigners cert.attestations :=
      List.mem_filter.mpr ⟨List.mem_map_of_mem hatt, hpk ▸ rfl⟩
    have hkey := h _ ((mem_attesters_iff hbuild).mpr hsigner)
    rw [(mem_attestations_of_tryBuild hbuild).mp hatt,
      show c.validatorSet.currentKey _ = _ from hpk]
      at hkey
    exact Option.some_inj.mp hkey

/-- A node that has received the attestations of validators 1, 2 and 3 for block 1. -/
def attestedNode (vs : ValidatorSet) : TendermintConsensus :=
  run (step transparentEnv) (.new 4 vs ChainId.empty none 0)
    ([1, 2, 3].map fun vid => .message (callAt 0) (.daAttestation (attestationOf vid Hash.zero)))

def attestedCertificate (vs : ValidatorSet) : DACertificate :=
  ⟨1, Hash.zero, [1, 2, 3].map (attestationOf · Hash.zero), 30, vs.totalStake⟩

def sealedEnv (cert : DACertificate) : Env :=
  { transparentEnv with decodeDaCertificate := fun _ => some cert }

def fourOwners : ValidatorSet where
  validators := fourKeyed.validators.map fun v => { v with stake := 10, delegatedStake := 0 }

theorem da_certificate_round_trip_owners :
    (attestedNode fourOwners).tryBuildDaCertificate (sealedEnv (attestedCertificate fourOwners)) 1
      Hash.zero = some (attestedCertificate fourOwners) ∧
    (attestedNode fourOwners).verifyDaCertificate
      (sealedEnv (attestedCertificate fourOwners))
      { certifiedBlock with number := 1 } = true := by
  have hbuild : (attestedNode fourOwners).tryBuildDaCertificate
      (sealedEnv (attestedCertificate fourOwners)) 1 Hash.zero =
        some (attestedCertificate fourOwners) := by decide +kernel
  exact ⟨hbuild, (da_certificate_round_trip_iff (sealedEnv _) _ _ rfl
    { certifiedBlock with number := 1 } Hash.zero _ [] hbuild rfl rfl).mpr (by decide +kernel)⟩

/-- The power of the attesters is delegated to them: the certificate is built and refused. -/
theorem delegated_attesters_refused :
    (attestedNode fourKeyed).tryBuildDaCertificate (sealedEnv (attestedCertificate fourKeyed)) 1
      Hash.zero = some (attestedCertificate fourKeyed) ∧
    (attestedNode fourKeyed).verifyDaCertificate
      (sealedEnv (attestedCertificate fourKeyed))
      { certifiedBlock with number := 1 } = false := by
  decide +kernel

end EvaporChain.TendermintConsensus
