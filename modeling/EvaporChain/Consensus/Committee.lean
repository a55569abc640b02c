import EvaporChain.Core.VoteLog
import EvaporChain.Consensus.Network

/-!
# The committee of a height

A committee is the validator set of one height together with the validators that run the engine,
the honest ones, which hold more than two thirds of the stake. Whatever the others send, a quorum
a node sees contains more than half of the honest stake, so two quorums share an honest validator;
and with ideal signatures a vote accepted in the name of an honest validator is one it cast.
-/

namespace EvaporChain

open Core TendermintConsensus Finset ValidatorSet

/-- Validators of a height: distinct, keyed, not jailed, the honest ones with more than two thirds
of the effective stake. -/
structure Committee where
  set : ValidatorSet
  honest : Finset ℕ
  height : ℕ
  chainId : ChainId
  nodup : set.ids.Nodup
  keyed : ∀ v ∈ set.validators, v.blsPublicKey.isSome = true
  free : ∀ v ∈ set.validators, v.jailed = false
  known : ∀ i ∈ honest, i ∈ set.ids
  majority : 2 * (set.validators.map (·.effectiveStake)).sum < 3 * ∑ i ∈ honest, set.stakeOf i
  /-- The total is not clamped. -/
  fits : (set.validators.map (·.effectiveStake)).sum ≤ u64Max

namespace Committee

variable (C : Committee)

/-- A group of honest validators with more than half of the honest stake. -/
def Quorum (S : Finset ℕ) : Prop :=
  S ⊆ C.honest ∧ ∑ i ∈ C.honest, C.set.stakeOf i < 2 * ∑ i ∈ S, C.set.stakeOf i

/-- Two quorums have a common member. -/
lemma quorum_inter (S T : Finset ℕ) (hS : C.Quorum S) (hT : C.Quorum T) : ∃ i, i ∈ S ∧ i ∈ T := by
  obtain ⟨hS, hweight⟩ := hS
  obtain ⟨hT, hweight'⟩ := hT
  exact exists_mem_inter C.set.stakeOf hS hT (by omega)

/-- A validator set as a node may have it during the height: others than the honest validators may
have been slashed or changed their keys. -/
structure Sees (vs : ValidatorSet) : Prop where
  slashed : C.set.SlashedTo vs
  honest : ∀ i ∈ C.honest, vs.get i = C.set.get i

variable {C}

lemma exists_get {i : ℕ} (hi : i ∈ C.honest) :
    ∃ v pk, C.set.get i = some v ∧ v.blsPublicKey = some pk ∧ v.jailed = false := by
  obtain ⟨w, hw, hid⟩ := List.mem_map.mp (C.known i hi)
  have hsome : (C.set.get i).isSome = true := by
    rw [ValidatorSet.get, List.find?_isSome]
    exact ⟨w, hw, by simpa using hid⟩
  obtain ⟨v, hv⟩ := Option.isSome_iff_exists.mp hsome
  have hmem : v ∈ C.set.validators := List.mem_of_find?_eq_some hv
  obtain ⟨pk, hpk⟩ := Option.isSome_iff_exists.mp (C.keyed v hmem)
  exact ⟨v, pk, hv, hpk, C.free v hmem⟩

namespace Sees

variable {vs : ValidatorSet} (h : C.Sees vs)

include h

lemma votingStake_honest {i : ℕ} (hi : i ∈ C.honest) : vs.votingStake i = C.set.stakeOf i := by
  obtain ⟨v, pk, hv, -, hfree⟩ := exists_get hi
  simp [ValidatorSet.votingStake, ValidatorSet.stakeOf, h.honest i hi, hv, hfree]

lemma votingStake_le (i : ℕ) : vs.votingStake i ≤ C.set.stakeOf i := by
  cases hv : vs.get i with
  | none => simp [ValidatorSet.votingStake, hv]
  | some v =>
    obtain ⟨v₀, hv₀, hstake, hdel⟩ := h.slashed.get i v hv
    have hle : v.effectiveStake ≤ v₀.effectiveStake := by
      simp only [ValidatorInfo.effectiveStake, satAdd]
      omega
    simp only [ValidatorSet.votingStake, ValidatorSet.stakeOf, hv, hv₀]
    split_ifs
    · exact Nat.zero_le _
    · exact hle

/-- The total a node computes is the honest stake plus what the others have left. -/
lemma totalStake_eq :
    vs.totalStake =
      ∑ i ∈ C.honest, C.set.stakeOf i + ∑ i ∈ C.set.ids.toFinset \ C.honest, vs.votingStake i := by
  have hids : vs.ids = C.set.ids := h.slashed.ids
  have hsubset : C.honest ⊆ C.set.ids.toFinset := fun i hi => List.mem_toFinset.mpr (C.known i hi)
  have hsum : (vs.active.map (·.effectiveStake)).sum =
      ∑ i ∈ C.set.ids.toFinset, vs.votingStake i := by
    rw [← sum_votingStake_ids (hids ▸ C.nodup), hids]
  have hle : ∑ i ∈ C.set.ids.toFinset, vs.votingStake i ≤ u64Max :=
    (sum_le_sum fun i _ => h.votingStake_le i).trans
      ((sum_stakeOf_ids_le C.set).trans C.fits)
  rw [ValidatorSet.totalStake, satSum_eq_sum (hsum ▸ hle), hsum, ← sum_sdiff hsubset,
    add_comm, sum_congr rfl fun i hi => h.votingStake_honest hi]

/-- The others have less than half of the honest stake. -/
lemma two_mul_others_lt :
    2 * ∑ i ∈ C.set.ids.toFinset \ C.honest, vs.votingStake i <
      ∑ i ∈ C.honest, C.set.stakeOf i := by
  have hsubset : C.honest ⊆ C.set.ids.toFinset := fun i hi => List.mem_toFinset.mpr (C.known i hi)
  have hothers : ∑ i ∈ C.set.ids.toFinset \ C.honest, vs.votingStake i ≤
      ∑ i ∈ C.set.ids.toFinset \ C.honest, C.set.stakeOf i :=
    sum_le_sum fun i _ => h.votingStake_le i
  have htotal := sum_sdiff (f := C.set.stakeOf) hsubset
  have hle := sum_stakeOf_ids_le C.set
  have hmajority := C.majority
  omega

/-- A set of voters that reaches the threshold contains a quorum of honest ones. -/
lemma quorum_of_threshold {voters : Finset ℕ}
    (hthreshold : vs.stakeQuorumThreshold ≤ ∑ i ∈ voters, vs.votingStake i) :
    C.Quorum (voters ∩ C.honest) := by
  refine ⟨inter_subset_right, ?_⟩
  have hsplit := sum_inter_add_sum_sdiff voters C.honest vs.votingStake
  -- voters outside the set carry no stake
  have hothers : ∑ i ∈ voters \ C.honest, vs.votingStake i ≤
      ∑ i ∈ C.set.ids.toFinset \ C.honest, vs.votingStake i := by
    refine sum_le_sum_of_ne_zero fun i hi hne => ?_
    have hget : vs.get i ≠ none := fun hnone => hne (by simp [ValidatorSet.votingStake, hnone])
    obtain ⟨v, hv⟩ := Option.ne_none_iff_exists'.mp hget
    rw [mem_sdiff, List.mem_toFinset, ← h.slashed.ids]
    exact ⟨mem_ids_of_get hv, (Finset.mem_sdiff.mp hi).2⟩
  have hhonest : ∑ i ∈ voters ∩ C.honest, vs.votingStake i =
      ∑ i ∈ voters ∩ C.honest, C.set.stakeOf i :=
    sum_congr rfl fun i hi => h.votingStake_honest (Finset.mem_inter.mp hi).2
  have htwothirds := vs.two_mul_totalStake_lt
  have htotal := h.totalStake_eq
  have hless := h.two_mul_others_lt
  omega

/-- A value that passes a node's quorum check has the votes of a quorum of honest validators. -/
lemma exists_quorum {table : Dict ℕ (Option Hash)} {hash : Option Hash}
    (hcheck : vs.checkQuorum table = some hash) :
    ∃ S, C.Quorum S ∧ ∀ i ∈ S, table.lookup i = some hash := by
  have hreached : vs.stakeQuorumThreshold ≤ vs.hashStake table hash := by
    simpa using List.find?_some hcheck
  set entries := table.entries.filter (·.2 == hash) with hentries
  have hkeys : (entries.map (·.1)).Nodup :=
    table.nodupKeys.sublist List.filter_sublist
  refine ⟨(entries.map (·.1)).toFinset ∩ C.honest, h.quorum_of_threshold ?_, fun i hi => ?_⟩
  · rw [List.sum_toFinset _ hkeys, List.map_map]
    exact hreached.trans (Nat.mod_le _ _)
  · obtain ⟨⟨vid, value⟩, hmem, rfl⟩ :=
      List.mem_map.mp (List.mem_toFinset.mp (Finset.mem_inter.mp hi).1)
    obtain ⟨hentry, hvalue⟩ := List.mem_filter.mp hmem
    obtain rfl : value = hash := by simpa using hvalue
    exact AList.mem_lookup_iff.mpr hentry

end Sees

end Committee

/-! ### Ballots -/

def Vote.ballot (height : ℕ) (vote : Vote) : Option (Ballot ℕ Hash) :=
  if vote.height = height then
    match vote.phase, vote.hash with
    | .prevote, some hash => some (.prevote vote.voter vote.round hash)
    | .precommit, some hash => some (.precommit vote.voter vote.round hash)
    | _, _ => none
  else none

def ballots (env : Env) (height : ℕ) (msgs : List ConsensusMessage) : List (Ballot ℕ Hash) :=
  ((votes env msgs).filterMap (·.ballot height)).reverse

section Ballots

variable {env : Env} {height : ℕ} {msgs : List ConsensusMessage} {vid round : ℕ} {hash : Hash}

@[simp] lemma ballots_append (env : Env) (height : ℕ) (ms ms' : List ConsensusMessage) :
    ballots env height (ms ++ ms') = ballots env height ms' ++ ballots env height ms := by
  simp [ballots]

lemma ballots_of_votes_nil (h : votes env msgs = []) : ballots env height msgs = [] := by
  simp [ballots, h]

lemma mem_ballots {ballot : Ballot ℕ Hash} {vote : Vote}
    (h : ∀ v : Vote, v.ballot height = some ballot ↔ v = vote) :
    ballot ∈ ballots env height msgs ↔ vote ∈ votes env msgs := by
  simp [ballots, h]

lemma mem_ballots_prevote :
    .prevote vid round hash ∈ ballots env height msgs ↔
      ⟨.prevote, height, round, some hash, vid⟩ ∈ votes env msgs := by
  refine mem_ballots ?_
  rintro ⟨_ | _, h, r, _ | value, voter⟩ <;> simp [Vote.ballot, and_comm, and_left_comm]

lemma mem_ballots_precommit :
    .precommit vid round hash ∈ ballots env height msgs ↔
      ⟨.precommit, height, round, some hash, vid⟩ ∈ votes env msgs := by
  refine mem_ballots ?_
  rintro ⟨_ | _, h, r, _ | value, voter⟩ <;> simp [Vote.ballot, and_comm, and_left_comm]

end Ballots

/-! ### Signatures -/

def Vote.bytes (chainId : ChainId) (vote : Vote) : Bytes :=
  blsVoteMessage chainId vote.height vote.round vote.hash vote.phase

/-- Who signs a message of the engine, and over which bytes. -/
def ConsensusMessage.signed (env : Env) (chainId : ChainId) : ConsensusMessage → Option (ℕ × Bytes)
  | .daAttestation att =>
    some (att.validatorId, daAttestationMessage att.blockNumber att.dataRoot att.validatorId
      att.samplesVerified att.stake)
  | msg => (msg.vote env).map fun vote => (vote.voter, vote.bytes chainId)

namespace Committee

variable (C : Committee) {env : Env} {sent : List ConsensusMessage}

/-- Ideal signatures: a vote of the height whose signature verifies under the key of an honest
validator is over bytes that this validator signed. -/
def Unforged (env : Env) (sent : List ConsensusMessage) (msg : ConsensusMessage) : Prop :=
  ∀ vote ∈ msg.vote env, vote.voter ∈ C.honest → vote.height = C.height →
    ∀ sig ∈ msg.signature, ∀ pk ∈ C.set.currentKey vote.voter,
      env.bls.verify (vote.bytes C.chainId) sig pk = true →
      ∃ m ∈ sent, m.signed env C.chainId = some (vote.voter, vote.bytes C.chainId)

instance (env : Env) (sent : List ConsensusMessage) (msg : ConsensusMessage) :
    Decidable (C.Unforged env sent msg) := by
  unfold Unforged
  infer_instance

/-- A data-availability attestation is no vote. -/
lemma daAttestationMessage_ne_voteBytes (number : ℕ) (root : Hash) (vid samples stake : ℕ)
    (vote : Vote) : daAttestationMessage number root vid samples stake ≠ vote.bytes C.chainId := by
  intro heq
  -- the first byte of a vote is the length of the chain id, which fixes the length of the vote
  have hlen := congrArg List.length heq
  have hhead := congrArg List.head? heq
  have hlt := C.chainId.length_lt
  simp only [daAttestationMessage, daAttestationDst, Vote.bytes, blsVoteMessage, List.cons_append,
    List.head?_cons, Option.some.injEq] at hhead
  have hid : C.chainId.bytes.length = 101 := by
    have hnat := congrArg UInt8.toNat hhead
    simp at hnat
    omega
  rw [Vote.bytes] at hlen
  simp [daAttestationMessage, daAttestationDst] at hlen
  split_ifs at hlen <;> omega

/-- A vote that a node accepts from a validator with a key is signed with that key. -/
lemma exists_signature_of_accepts {c : TendermintConsensus} {msg : ConsensusMessage} {vote : Vote}
    {v : ValidatorInfo} {pk : Bytes} (haccepts : c.Accepts env msg)
    (hvote : msg.vote env = some vote) (hheight : msg.height = c.height)
    (hget : c.validatorSet.get vote.voter = some v) (hpk : v.blsPublicKey = some pk) :
    ∃ sig ∈ msg.signature, env.bls.verify (vote.bytes c.chainId) sig pk = true := by
  cases msg with
  | proposal height round block vid sig =>
    cases hvote
    simp only [Accepts, proposalSigned, hget, hpk, Option.bind_some] at haccepts
    exact Option.any_eq_true _ _ |>.mp haccepts
  | prevote height round hash vid sig | precommit height round hash vid sig =>
    cases hvote
    simp only [Accepts, voteAuthentic, hget, hpk, ← hheight] at haccepts
    exact Option.any_eq_true _ _ |>.mp haccepts
  | keyAnnounce | daAttestation | oracleVote => cases hvote

/-- A vote whose bytes were signed was cast. -/
lemma mem_votes_of_signed {C : Committee} {vote : Vote} (hheight : vote.height = C.height)
    (hround : vote.round < 2 ^ 32)
    (hsent : ∀ v ∈ votes env sent, v.height = C.height ∧ v.round < 2 ^ 32)
    (hsigned : ∃ m ∈ sent, m.signed env C.chainId = some (vote.voter, vote.bytes C.chainId)) :
    vote ∈ votes env sent := by
  obtain ⟨m, hm, hsigned⟩ := hsigned
  -- not by a data-availability attestation
  have hvote : (m.vote env).map (fun v => (v.voter, v.bytes C.chainId)) =
      some (vote.voter, vote.bytes C.chainId) := by
    cases m with
    | daAttestation att =>
      simp only [ConsensusMessage.signed, Option.some.injEq, Prod.mk.injEq] at hsigned
      exact absurd hsigned.2 (C.daAttestationMessage_ne_voteBytes _ _ _ _ _ vote)
    | _ => exact hsigned
  obtain ⟨v, hv, heq⟩ := Option.map_eq_some_iff.mp hvote
  have hmem : v ∈ votes env sent := List.mem_filterMap.mpr ⟨m, hm, hv⟩
  obtain ⟨hvheight, hvround⟩ := hsent v hmem
  obtain ⟨hvoter, hbytes⟩ := Prod.mk.inj heq
  rw [Vote.bytes, hvheight, ← hheight] at hbytes
  obtain ⟨hr, hh, hp⟩ := blsVoteMessage_inj hvround hround hbytes
  obtain rfl : v = vote := by
    cases v
    cases vote
    simp_all
  exact hmem

end Committee

end EvaporChain
