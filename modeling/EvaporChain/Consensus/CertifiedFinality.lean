import EvaporChain.Consensus.Agreement
import EvaporChain.Consensus.Finality

/-!
# Certificates in finality records

A block that is committed gets the certificate the node builds from the precommits it holds, unless
the block already came with one: then that one is kept, whatever it says, and ends up in the
finality record. As long as proposals come without certificate, all validators have verified keys
and no key is replaced, every record holds a certificate that verifies.
-/

namespace EvaporChain

open Core TendermintConsensus ValidatorSet List

/-- Honest signatures verify, alone and aggregated. -/
structure Bls.Lawful (bls : Bls) : Prop where
  verify_sign : ∀ sk msg, bls.verify msg (bls.sign sk msg) (bls.publicKeyBytes sk) = true
  aggregateVerify : ∀ (msg : Bytes) (signed : List (Bytes × Bytes)) (agg : Bytes), signed ≠ [] →
    (∀ x ∈ signed, bls.verify msg x.1 x.2 = true) →
    bls.aggregateSignatures (signed.map (·.1)) = some agg →
    bls.aggregateVerify msg agg (signed.map (·.2)) = true

namespace ValidatorSet

variable (vs : ValidatorSet)

/-- All validators have keys with a verified proof of possession. -/
def AllVerified : Prop :=
  ∀ vid v, vs.get vid = some v → v.blsPublicKey.isSome ∧ v.popVerified = true

lemma allVerified_of_mem {vs : ValidatorSet}
    (h : ∀ v ∈ vs.validators, v.blsPublicKey.isSome ∧ v.popVerified = true) : vs.AllVerified :=
  fun _ v hget => h v (List.mem_of_find?_eq_some hget)

lemma AllVerified.canSign {vs : ValidatorSet} (h : vs.AllVerified) {vid : ℕ} {pk : Bytes}
    (hkey : vs.currentKey vid = some pk) : vs.canSign vid = true := by
  obtain ⟨v, hget, hpk⟩ := Option.bind_eq_some_iff.mp hkey
  exact canSign_iff.mpr ⟨v, pk, hget, hpk, (h vid v hget).2⟩

/-- What certificate verification reads of a validator's keys. -/
def keyOf (vid : ℕ) : Option (Option Bytes × Bool) :=
  (vs.get vid).map fun v => (v.blsPublicKey, v.popVerified)

lemma currentKey_eq (vid : ℕ) : vs.currentKey vid = (vs.keyOf vid).bind (·.1) := by
  rw [currentKey, keyOf]
  cases vs.get vid <;> rfl

lemma AllVerified.of_keyOf_eq {vs vs' : ValidatorSet} (h : vs.AllVerified)
    (hkeys : vs'.keyOf = vs.keyOf) : vs'.AllVerified := by
  intro vid v' hv'
  have hkey : vs.keyOf vid = some (v'.blsPublicKey, v'.popVerified) := by
    rw [← hkeys, keyOf, hv']
    rfl
  obtain ⟨v, hv, heq⟩ := Option.map_eq_some_iff.mp hkey
  obtain ⟨hpk, hpop⟩ := Prod.mk.inj heq
  rw [← hpk, ← hpop]
  exact h vid v hv

variable (vs : ValidatorSet)

lemma keyOf_modify (id : ℕ) {f : ValidatorInfo → ValidatorInfo} (hid : ∀ v, (f v).id = v.id)
    (hkey : ∀ v, (f v).blsPublicKey = v.blsPublicKey ∧ (f v).popVerified = v.popVerified) :
    (vs.modify id f).keyOf = vs.keyOf := by
  funext vid
  rw [keyOf, get_modify vs id vid hid]
  split_ifs with heq
  · subst heq
    rw [Option.map_map]
    congr 1
    funext v
    simp [hkey v]
  · rfl

lemma keyOf_refreshDelegatedStakes (delegations : List (ℕ × ℕ)) :
    (vs.refreshDelegatedStakes delegations).keyOf = vs.keyOf := by
  rw [refreshDelegatedStakes]
  generalize vs.ids = ids
  induction ids generalizing vs with
  | nil => rfl
  | cons id ids ih =>
    rw [foldl_cons, ih]
    exact keyOf_modify vs id (fun _ => rfl) fun _ => ⟨rfl, rfl⟩

lemma keyOf_slashWithAmount (id amount : ℕ) (jail : Bool) :
    (vs.slashWithAmount id amount jail).1.keyOf = vs.keyOf := by
  simp only [slashWithAmount]
  split
  · rfl
  · exact keyOf_modify vs id (fun _ => rfl) fun _ => ⟨rfl, rfl⟩

lemma votingStake_le_stakeOf (vid : ℕ) : vs.votingStake vid ≤ vs.stakeOf vid := by
  rw [votingStake, stakeOf]
  split
  · split_ifs
    · exact Nat.zero_le _
    · exact le_rfl
  · exact le_rfl

end ValidatorSet

/-! ### Building a certificate -/

namespace TendermintConsensus

lemma perm_insertSorted (entry : ℕ × Bytes × ℕ) (l : List (ℕ × Bytes × ℕ)) :
    (insertSorted entry l).Perm (entry :: l) := by
  induction l with
  | nil => rfl
  | cons e l ih =>
    simp only [insertSorted]
    split_ifs
    · rfl
    · exact (ih.cons e).trans (List.Perm.swap _ _ _)

lemma perm_foldr_insertSorted (l : List (ℕ × Bytes × ℕ)) : (l.foldr insertSorted []).Perm l := by
  induction l with
  | nil => rfl
  | cons e l ih => exact (perm_insertSorted e _).trans (ih.cons e)

variable {env : Env} {c : TendermintConsensus} {hash : Hash}

/-- The entries are the precommits for the block that come with a signature. -/
lemma mem_certificateEntries {entry : ℕ × Bytes × ℕ} (h : entry ∈ c.certificateEntries hash) :
    c.roundState.precommits.lookup entry.1 = some (some hash) ∧
      c.roundState.precommitBlsSigs.lookup entry.1 = some entry.2.1 ∧
      entry.2.2 = c.validatorSet.votingStake entry.1 := by
  have hmem := (perm_foldr_insertSorted _).mem_iff.mp h
  obtain ⟨⟨vid, vote⟩, hvote, hentry⟩ := List.mem_filterMap.mp hmem
  simp only [Option.ite_none_right_eq_some, Option.map_eq_some_iff] at hentry
  obtain ⟨hhash, sig, hsig, rfl⟩ := hentry
  have hlookup : c.roundState.precommits.lookup vid = some vote :=
    AList.mem_lookup_iff.mpr hvote
  exact ⟨hhash ▸ hlookup, hsig, rfl⟩

lemma nodup_certificateEntries : ((c.certificateEntries hash).map (·.1)).Nodup := by
  have hperm := (perm_foldr_insertSorted (c.roundState.precommits.entries.filterMap fun vote =>
    if vote.2 = some hash then
      (c.roundState.precommitBlsSigs.lookup vote.1).map fun sig =>
        (vote.1, sig, c.validatorSet.votingStake vote.1)
    else none)).map (·.1)
  refine hperm.nodup_iff.mpr ?_
  -- entries with distinct keys stay distinct when some of them are left out
  have hkeys : (c.roundState.precommits.entries.map Sigma.fst).Nodup :=
    c.roundState.precommits.nodupKeys
  refine hkeys.sublist ?_
  generalize c.roundState.precommits.entries = entries
  induction entries with
  | nil => simp
  | cons vote entries ih =>
    rw [filterMap_cons]
    split
    · exact ih.trans (sublist_cons_self _ _)
    · rename_i entry hentry
      simp only [Option.ite_none_right_eq_some, Option.map_eq_some_iff] at hentry
      obtain ⟨-, sig, -, rfl⟩ := hentry
      exact ih.cons_cons _

/-- Recorded precommits with a signature verify under the keys now registered. -/
def PrecommitsSigned (env : Env) (c : TendermintConsensus) : Prop :=
  ∀ vid sig hash, c.roundState.precommitBlsSigs.lookup vid = some sig →
    c.roundState.precommits.lookup vid = some hash → ∃ pk, c.validatorSet.currentKey vid = some pk ∧
      env.bls.verify
        (blsVoteMessage c.chainId c.height c.roundState.round hash .precommit) sig pk = true

/-- What a finality record should show for a block committed in state `c`. -/
structure Certifies (env : Env) (c : TendermintConsensus) (block : Block)
    (cert : CommitCertificate) : Prop where
  height : cert.height = block.number
  blockHash : cert.blockHash = EvaporChain.blockHash env block
  nodup : cert.signerIds.Nodup
  verifies : c.verifyCommitCertificate env.bls cert = true

private lemma filterMap_eq_map_getD {α β : Type} {f : α → Option β} {l : List α} (d : β)
    (h : ∀ x ∈ l, (f x).isSome) : l.filterMap f = l.map fun x => (f x).getD d := by
  induction l with
  | nil => rfl
  | cons x l ih =>
    obtain ⟨y, hy⟩ := Option.isSome_iff_exists.mp (h x (.head _))
    rw [filterMap_cons_some hy, map_cons, hy, ih fun z hz => h z (.tail _ hz)]
    rfl

/-- A certificate built from signed precommits verifies against the same set. -/
lemma verifies_of_tryBuild (hbls : env.bls.Lawful) (hverified : c.validatorSet.AllVerified)
    (hsigned : PrecommitsSigned env c) {cert : CommitCertificate}
    (hbuild : c.tryBuildCommitCertificate env hash = some cert) {d : TendermintConsensus}
    (hset : d.validatorSet = c.validatorSet) (hchain : d.chainId = c.chainId) :
    (cert.height = c.height ∧ cert.blockHash = hash ∧ cert.signerIds.Nodup) ∧
      d.verifyCommitCertificate env.bls cert = true := by
  rw [tryBuildCommitCertificate] at hbuild
  split_ifs at hbuild with hstake
  obtain ⟨agg, hagg, rfl⟩ := Option.map_eq_some_iff.mp hbuild
  have hentry := @mem_certificateEntries c hash
  generalize hentries : c.certificateEntries hash = entries at *
  have hkey (entry : ℕ × Bytes × ℕ) (h : entry ∈ entries) :
      ∃ pk, c.validatorSet.currentKey entry.1 = some pk ∧ env.bls.verify
        (blsVoteMessage c.chainId c.height c.roundState.round (some hash) .precommit)
        entry.2.1 pk = true :=
    hsigned _ _ _ (hentry h).2.1 (hentry h).1
  have hnodup := hentries ▸ nodup_certificateEntries
  have hpks : (entries.map (·.1)).filterMap c.validatorSet.currentKey =
      entries.map fun entry => (c.validatorSet.currentKey entry.1).getD [] := by
    rw [filterMap_map]
    refine filterMap_eq_map_getD [] fun entry h => ?_
    obtain ⟨pk, hpk, -⟩ := hkey entry h
    simp [hpk]
  refine ⟨⟨rfl, rfl, hnodup⟩, ?_⟩
  refine (verifyCommitCertificateInner_iff env.bls d _ false).mpr ⟨hnodup, ?_, Or.inl ?_, Or.inl ?_⟩
  · intro vid hvid
    obtain ⟨entry, h, rfl⟩ := List.mem_map.mp hvid
    obtain ⟨pk, hpk, -⟩ := hkey entry h
    rw [hset]
    exact hverified.canSign hpk
  · rw [signerStake, hset]
    have hsum : (entries.map (·.2.2)).sum ≤
        ((entries.map (·.1)).map c.validatorSet.stakeOf).sum := by
      rw [map_map]
      refine sum_le_sum fun entry h => ?_
      rw [(hentry h).2.2]
      exact c.validatorSet.votingStake_le_stakeOf entry.1
    dsimp only
    rw [satSum_eq, u64Max]
    omega
  · rw [hset, hpks, certificateMessage, hchain]
    have hall := hbls.aggregateVerify
      (blsVoteMessage c.chainId c.height c.roundState.round (some hash) .precommit)
      (entries.map fun entry => (entry.2.1, (c.validatorSet.currentKey entry.1).getD [])) agg
    simp only [map_map] at hall
    refine hall ?_ ?_ hagg
    · -- nobody's stake does not reach the threshold
      intro hnil
      rw [List.map_eq_nil_iff.mp hnil] at hstake
      exact hstake (by simpa using c.validatorSet.stakeQuorumThreshold_pos)
    · intro x hx
      obtain ⟨entry, h, rfl⟩ := List.mem_map.mp hx
      obtain ⟨pk, hpk, hverify⟩ := hkey entry h
      simpa [hpk] using hverify

end TendermintConsensus

/-! ### What a node holds -/

namespace TendermintConsensus

/-- The node holds only blocks of its height that came without certificate, and signed
precommits. -/
structure CertInv (env : Env) (c : TendermintConsensus) : Prop where
  proposed : ∀ block, c.roundState.proposedBlock = some block →
    block.commitCertificate = none ∧ block.number = c.height
  locked : ∀ block, c.lockedBlock = some block →
    block.commitCertificate = none ∧ block.number = c.height
  signed : PrecommitsSigned env c

/-- All validators have verified keys, the node's own key among them. -/
structure KeysFit (env : Env) (c : TendermintConsensus) : Prop where
  verified : c.validatorSet.AllVerified
  own : ∃ sk, c.blsKeypair = some sk ∧
    c.validatorSet.currentKey c.myId = some (env.bls.publicKeyBytes sk)

/-- A proposal the call brings is for a block of its height without certificate. -/
def BareProposal (e : Event) : Prop :=
  ∀ input height round block vid sig, e = .message input (.proposal height round block vid sig) →
    block.commitCertificate = none ∧ block.number = height

variable {env : Env} {e : Event} {c c' : TendermintConsensus} {acts : List ConsensusAction}

lemma KeysFit.of_keyOf_eq (h : KeysFit env c) (hsame : SameNode c c')
    (hkeys : c'.validatorSet.keyOf = c.validatorSet.keyOf) : KeysFit env c' := by
  obtain ⟨sk, hsk, hpk⟩ := h.own
  refine ⟨h.verified.of_keyOf_eq hkeys, sk, hsame.blsKeypair ▸ hsk, ?_⟩
  rw [currentKey_eq, hkeys, hsame.myId, ← currentKey_eq, hpk]

/-- Recorded precommits stay signed when slot, keys and tables are the same. -/
lemma PrecommitsSigned.of_same (h : PrecommitsSigned env c) (hsame : SameNode c c')
    (hkeys : c'.validatorSet.keyOf = c.validatorSet.keyOf)
    (hround : c'.roundState.round = c.roundState.round)
    (hprecommits : c'.roundState.precommits = c.roundState.precommits)
    (hsigs : c'.roundState.precommitBlsSigs = c.roundState.precommitBlsSigs) :
    PrecommitsSigned env c' := by
  intro vid sig hash hsig hvote
  rw [hsigs] at hsig
  rw [hprecommits] at hvote
  rw [currentKey_eq, hkeys, ← currentKey_eq, hsame.chainId, hsame.height, hround]
  exact h vid sig hash hsig hvote

/-- A fresh round holds no precommits. -/
lemma precommitsSigned_enterRound (round now : ℕ) :
    PrecommitsSigned env (c.enterRound round now) := by
  intro vid sig hash hsig
  exact absurd hsig (by simp [enterRound, setTimeoutsForRound, RoundState.new])

/-- A vote goes into both tables together with its signature. -/
lemma precommitsSigned_insert (h : PrecommitsSigned env c) (hsame : SameNode c c')
    (hkeys : c'.validatorSet.keyOf = c.validatorSet.keyOf)
    (hround : c'.roundState.round = c.roundState.round)
    {vid : ℕ} {hash : Option Hash} {sig pk : Bytes}
    (hprecommits : c'.roundState.precommits = c.roundState.precommits.insert vid hash)
    (hsigs : c'.roundState.precommitBlsSigs = c.roundState.precommitBlsSigs.insert vid sig)
    (hpk : c.validatorSet.currentKey vid = some pk)
    (hverify : env.bls.verify
      (blsVoteMessage c.chainId c.height c.roundState.round hash .precommit) sig pk = true) :
    PrecommitsSigned env c' := by
  intro vid' sig' hash' hsig hvote
  rw [hsigs, Dict.lookup_insert_apply] at hsig
  rw [hprecommits, Dict.lookup_insert_apply] at hvote
  rw [currentKey_eq, hkeys, ← currentKey_eq, hsame.chainId, hsame.height, hround]
  split_ifs at hsig hvote with heq
  · subst heq
    cases hsig
    cases hvote
    exact ⟨pk, hpk, hverify⟩
  · exact h vid' sig' hash' hsig hvote

/-- The node signs its own precommits. -/
lemma precommitsSigned_castPrecommit (hbls : env.bls.Lawful) (hkeys : KeysFit env c)
    (h : PrecommitsSigned env c) (hash : Option Hash) :
    PrecommitsSigned env (c.castPrecommit env hash) := by
  obtain ⟨sk, hsk, hpk⟩ := hkeys.own
  refine precommitsSigned_insert h ⟨rfl, rfl, rfl, rfl, rfl, rfl, rfl⟩ rfl rfl rfl ?_ hpk
    (hbls.verify_sign sk _)
  simp [castPrecommit, blsSignVote, hsk]

lemma precommitsSigned_of_move (hbls : env.bls.Lawful) (hkeys : KeysFit env c)
    (hannounce : ¬ e.IsKeyAnnounce) (hmove : Move env e c acts c') (h : PrecommitsSigned env c) :
    PrecommitsSigned env c' := by
  have hsame := hmove.sameNode
  cases hmove with
  | say => exact h
  | registerKey he => exact absurd ⟨_, _, _, _, _, he⟩ hannounce
  | propose | dropProposed | storeAttestation | adoptBlock | recordPrevote =>
    exact h.of_same hsame rfl rfl rfl rfl
  | proposeTimedOut =>
    simp only [proposeTimedOut] at hsame ⊢
    split_ifs at hsame ⊢ <;> exact h.of_same hsame rfl rfl rfl rfl
  | prevoteTimedOut =>
    simp only [prevoteTimedOut] at hsame ⊢
    split_ifs at hsame ⊢
    · exact h.of_same hsame rfl rfl rfl rfl
    · exact (precommitsSigned_castPrecommit hbls hkeys h none).of_same
        ⟨rfl, rfl, rfl, rfl, rfl, rfl, rfl⟩ rfl rfl rfl rfl
  | skip => exact precommitsSigned_enterRound _ _
  | recordProposal =>
    rw [c.recordProposal_eq] at hsame ⊢
    exact h.of_same hsame rfl rfl rfl rfl
  | voteOnProposal =>
    rw [c.voteOnProposal_eq] at hsame ⊢
    exact h.of_same hsame rfl rfl rfl rfl
  | @recordPrecommit input hash vid sig he hauth =>
    obtain ⟨v, hget, -, hsig⟩ := voteAuthentic_iff.mp hauth
    obtain ⟨pk, hpk⟩ := Option.isSome_iff_exists.mp (hkeys.verified vid v hget).1
    obtain ⟨s, rfl, hverify⟩ := hsig pk hpk
    refine precommitsSigned_insert h hsame rfl rfl rfl rfl ?_ hverify
    rw [currentKey, hget]
    exact hpk

lemma keyOf_opened (c : TendermintConsensus) (e : Event) :
    (c.opened e).validatorSet.keyOf = c.validatorSet.keyOf := by
  cases e with
  | tick input => exact keyOf_refreshDelegatedStakes _ _
  | message | committed => rfl

lemma sameNode_opened (c : TendermintConsensus) (e : Event) : SameNode c (c.opened e) := by
  cases e <;> exact ⟨rfl, rfl, rfl, rfl, rfl, rfl, rfl⟩

lemma precommitsSigned_opened (h : PrecommitsSigned env c) (e : Event) :
    PrecommitsSigned env (c.opened e) := by
  have hkeys := keyOf_opened c e
  have hsame := sameNode_opened c e
  cases e with
  | tick => exact h.of_same hsame hkeys rfl rfl rfl
  | message | committed => exact h

lemma keyOf_sanovSlashEquivocation (env : Env) (c : TendermintConsensus) (vid window : ℕ) :
    (c.sanovSlashEquivocation env vid window).1.validatorSet.keyOf = c.validatorSet.keyOf := by
  simp only [sanovSlashEquivocation]
  split
  · rfl
  · split_ifs
    · rfl
    · exact keyOf_slashWithAmount _ _ _ _

lemma KeysFit.of_moves (hkeys : KeysFit env c) (hannounce : ¬ e.IsKeyAnnounce)
    (moves : Moves env e (c.opened e) acts c') : KeysFit env c' :=
  hkeys.of_keyOf_eq ((sameNode_opened c e).trans moves.sameNode)
    (by rw [moves.validatorSet_eq hannounce, keyOf_opened])

/-- A call other than a key announcement leaves the recorded precommits signed. -/
lemma precommitsSigned_handle (hbls : env.bls.Lawful) (hkeys : KeysFit env c)
    (hannounce : ¬ e.IsKeyAnnounce) (h : PrecommitsSigned env c) :
    PrecommitsSigned env (c.handle env e).node := by
  have hmoves {acts : List ConsensusAction} {c' : TendermintConsensus}
      (moves : Moves env e (c.opened e) acts c') : PrecommitsSigned env c' :=
    moves.keeps (fun before => precommitsSigned_of_move hbls (hkeys.of_moves hannounce before)
      hannounce) (precommitsSigned_opened h e)
  have hspec := handle_spec env e c
  generalize c.handle env e = outcome at hspec ⊢
  cases hspec with
  | stay moves => exact hmoves moves
  | @precommit acts c' hash now moves =>
    have hc' := hmoves moves
    simp only [precommitOnQuorum]
    split_ifs
    · exact hc'.of_same ⟨rfl, rfl, rfl, rfl, rfl, rfl, rfl⟩ rfl rfl rfl rfl
    · obtain ⟨block, round, heq⟩ := c'.lockOn_eq env hash
      have hlock : PrecommitsSigned env (c'.lockOn env hash) ∧
          KeysFit env (c'.lockOn env hash) := by
        rw [heq]
        exact ⟨hc'.of_same ⟨rfl, rfl, rfl, rfl, rfl, rfl, rfl⟩ rfl rfl rfl rfl,
          (hkeys.of_moves hannounce moves).of_keyOf_eq ⟨rfl, rfl, rfl, rfl, rfl, rfl, rfl⟩ rfl⟩
      have hcast := precommitsSigned_castPrecommit hbls hlock.2 hlock.1 hash
      exact hcast.of_same ⟨rfl, rfl, rfl, rfl, rfl, rfl, rfl⟩ rfl rfl rfl rfl
  | commit moves =>
    exact (hmoves moves).of_same ⟨rfl, rfl, rfl, rfl, rfl, rfl, rfl⟩ rfl rfl rfl rfl
  | @commitAdvance acts c' block now moves | @advance acts c' now moves =>
    exact precommitsSigned_enterRound _ _
  | @slash acts c' vid moves =>
    have hslash := keyOf_sanovSlashEquivocation env c' vid sanovEquivocationWindow
    obtain ⟨vs, heq, -⟩ := c'.sanovSlashEquivocation_eq env vid sanovEquivocationWindow
    rw [heq] at hslash ⊢
    exact (hmoves moves).of_same ⟨rfl, rfl, rfl, rfl, rfl, rfl, rfl⟩ hslash rfl rfl rfl
  | committed => exact precommitsSigned_enterRound _ _

lemma certInv_of_move (hbls : env.bls.Lawful) (hkeys : KeysFit env c) (hbare : BareProposal e)
    (hannounce : ¬ e.IsKeyAnnounce) (hmove : Move env e c acts c') (h : CertInv env c) :
    CertInv env c' := by
  have hheight := hmove.sameNode.height
  have hlock := hmove.lock_eq.1
  refine ⟨?_, by rw [hlock, hheight]; exact h.locked,
    precommitsSigned_of_move hbls hkeys hannounce hmove h.signed⟩
  rw [hheight]
  intro block hblock
  cases hmove with
  | @propose input =>
    cases hblock
    rw [createProposal]
    split
    · rename_i locked hlocked
      exact h.locked locked hlocked
    · exact ⟨rfl, rfl⟩
  | adoptBlock he =>
    cases hblock
    exact hbare _ _ _ _ _ _ he
  | dropProposed | skip => cases hblock
  | registerKey he => exact absurd ⟨_, _, _, _, _, he⟩ hannounce
  | proposeTimedOut =>
    simp only [proposeTimedOut] at hblock
    split_ifs at hblock <;> exact h.proposed _ hblock
  | prevoteTimedOut =>
    simp only [prevoteTimedOut] at hblock
    split_ifs at hblock <;> exact h.proposed _ hblock
  | recordProposal =>
    rw [c.recordProposal_eq] at hblock
    exact h.proposed _ hblock
  | voteOnProposal =>
    rw [c.voteOnProposal_eq] at hblock
    exact h.proposed _ hblock
  | say | storeAttestation | recordPrevote | recordPrecommit => exact h.proposed _ hblock

lemma certInv_opened (h : CertInv env c) (e : Event) : CertInv env (c.opened e) := by
  refine ⟨?_, ?_, precommitsSigned_opened h.signed e⟩
  · cases e <;> exact h.proposed
  · cases e <;> exact h.locked

lemma certInv_of_moves (hbls : env.bls.Lawful) (hkeys : KeysFit env c) (hbare : BareProposal e)
    (hannounce : ¬ e.IsKeyAnnounce) (moves : Moves env e (c.opened e) acts c')
    (h : CertInv env c) : CertInv env c' :=
  moves.keeps (fun before => certInv_of_move hbls (hkeys.of_moves hannounce before) hbare hannounce)
    (certInv_opened h e)

/-- What is locked on is the proposed block. -/
lemma locked_lockOn (h : CertInv env c) {hash : Option Hash} {block : Block}
    (hblock : (c.lockOn env hash).lockedBlock = some block) :
    block.commitCertificate = none ∧ block.number = c.height := by
  simp only [lockOn] at hblock
  split at hblock
  · rename_i hproposed
    split_ifs at hblock
    · cases hblock
      exact h.proposed _ hproposed
    · exact h.locked _ hblock
  · exact h.locked _ hblock

/-- A call other than a key announcement keeps the invariant. -/
lemma certInv_handle (hbls : env.bls.Lawful) (hkeys : KeysFit env c) (hbare : BareProposal e)
    (hannounce : ¬ e.IsKeyAnnounce) (h : CertInv env c) : CertInv env (c.handle env e).node := by
  have hsigned := precommitsSigned_handle hbls hkeys hannounce h.signed
  have hmoves {acts : List ConsensusAction} {c' : TendermintConsensus}
      (moves : Moves env e (c.opened e) acts c') : CertInv env c' :=
    certInv_of_moves hbls hkeys hbare hannounce moves h
  have hspec := handle_spec env e c
  generalize c.handle env e = outcome at hspec hsigned ⊢
  cases hspec with
  | stay moves => exact hmoves moves
  | @precommit acts c' hash now moves =>
    have hc' := hmoves moves
    simp only [precommitOnQuorum] at hsigned ⊢
    split_ifs at hsigned ⊢
    · exact ⟨hc'.proposed, hc'.locked, hsigned⟩
    · obtain ⟨block, round, heq⟩ := c'.lockOn_eq env hash
      have hlocked := @locked_lockOn env c' hc' hash
      rw [heq] at hsigned hlocked ⊢
      exact ⟨hc'.proposed, fun _ => hlocked, hsigned⟩
  | commit moves => exact ⟨by rintro _ ⟨⟩, (hmoves moves).locked, hsigned⟩
  | @commitAdvance acts c' block now moves =>
    obtain ⟨vs, missedProposals, missedVotes, heq, -⟩ :=
      (c'.commitProposed env block (blockHash env block)).1.advanceRound_eq env now
    rw [heq] at hsigned ⊢
    exact ⟨by rintro _ ⟨⟩, (hmoves moves).locked, hsigned⟩
  | @advance acts c' now moves =>
    obtain ⟨vs, missedProposals, missedVotes, heq, -⟩ := c'.advanceRound_eq env now
    rw [heq] at hsigned ⊢
    exact ⟨by rintro _ ⟨⟩, (hmoves moves).locked, hsigned⟩
  | @slash acts c' vid moves =>
    obtain ⟨vs, heq, -⟩ := c'.sanovSlashEquivocation_eq env vid sanovEquivocationWindow
    rw [heq] at hsigned ⊢
    exact ⟨(hmoves moves).proposed, (hmoves moves).locked, hsigned⟩
  | committed => exact ⟨by rintro _ ⟨⟩, by rintro _ ⟨⟩, hsigned⟩

/-- The certificate of a block that a call commits. -/
lemma certifies_of_commitBlock (hbls : env.bls.Lawful) (hkeys : KeysFit env c)
    (hbare : BareProposal e) (h : CertInv env c) {block : Block} {cert : CommitCertificate}
    (hmem : .commitBlock block ∈ (c.handle env e).actions)
    (hcert : block.commitCertificate = some cert) : Certifies env (c.opened e) block cert := by
  by_cases hannounce : e.IsKeyAnnounce
  · obtain ⟨input, vid, pk, pop, sig, rfl⟩ := hannounce
    cases hmem
  obtain ⟨acts, c', proposed, moves, hcan, hblock, -⟩ := exists_canCommit_of_mem hmem
  have hc' := certInv_of_moves hbls hkeys hbare hannounce moves h
  obtain ⟨hnone, hnumber⟩ := hc'.proposed proposed hcan.proposed
  simp only [commitProposed, hnone, ConsensusAction.commitBlock.injEq] at hblock
  subst hblock
  obtain ⟨⟨hheight, hhash, hnodup⟩, hverifies⟩ := verifies_of_tryBuild hbls
    (hkeys.of_moves hannounce moves).verified hc'.signed hcert
      (moves.validatorSet_eq hannounce).symm moves.sameNode.chainId.symm
  exact ⟨hheight.trans hnumber.symm, hhash, hnodup, hverifies⟩

end TendermintConsensus

/-! ### Records -/

namespace FinalityTracker

variable {t : FinalityTracker}

@[simp] lemma records_observeProposal (height : ℕ) :
    (t.observeProposal height).records = t.records := by
  simp only [observeProposal]
  split_ifs <;> rfl

lemma lookup_of_prune {fuel height : ℕ} {record : FinalityRecord}
    (h : (prune fuel t).records.lookup height = some record) :
    t.records.lookup height = some record := by
  induction fuel generalizing t with
  | zero => exact h
  | succ fuel ih =>
    rw [prune] at h
    split_ifs at h
    · split at h
      · have herase := ih h
        rw [Dict.lookup_erase_apply] at herase
        split_ifs at herase
        exact herase
      · exact h
    · exact h

end FinalityTracker

/-! ### Runs -/

/-- A node with the blocks it has committed so far, each with the state in which the call that
committed it began to act. -/
structure FinalizingNode where
  node : TrackedConsensus
  committed : List (TendermintConsensus × Block)

namespace FinalizingNode

variable {env : Env}

def step (env : Env) (s : FinalizingNode) (e : Event) : FinalizingNode where
  node := s.node.step env e
  committed := s.committed ++
    (committedBlocks (s.node.handle env e).actions).map fun block => (s.node.opened e, block)

/-- Blocks that are reported as applied were committed by the node. -/
def Emitted (s : FinalizingNode) (e : Event) : Prop :=
  ∀ input, e = .committed input → ∃ x ∈ s.committed, x.2 = input.block

/-- Proposals come without certificate and for their height, all keys are verified, and no
registered key is replaced. -/
structure Orderly (env : Env) (s : FinalizingNode) (e : Event) : Prop where
  bare : BareProposal e
  keys : KeysFit env s.node.toTendermintConsensus
  keep : ∀ input vid pk pop sig, e = .message input (.keyAnnounce vid pk pop sig) →
    s.node.keyAdmitted env vid pk pop sig = false

/-- Every finality record is for a committed block and carries a certificate that verifies
against the validator set of that time. -/
def Certified (env : Env) (s : FinalizingNode) : Prop :=
  ∀ height record, s.node.finalityTracker.records.lookup height = some record →
    ∃ x ∈ s.committed, height = x.2.number ∧ record.blockHash = blockHash env x.2 ∧
      Certifies env x.1 x.2 record.certificate

/-- Committed blocks with a certificate have one that verifies. -/
def CommitsCertified (env : Env) (s : FinalizingNode) : Prop :=
  ∀ x ∈ s.committed, ∀ cert, x.2.commitCertificate = some cert → Certifies env x.1 x.2 cert

variable {s : FinalizingNode}

lemma commitsCertified_step (hbls : env.bls.Lawful) {e : Event}
    (horderly : Orderly env s e) (hinv : CertInv env s.node.toTendermintConsensus)
    (h : CommitsCertified env s) : CommitsCertified env (s.step env e) := by
  intro x hx cert hcert
  rcases List.mem_append.mp hx with hold | hnew
  · exact h x hold cert hcert
  · obtain ⟨block, hblock, rfl⟩ := List.mem_map.mp hnew
    exact certifies_of_commitBlock hbls horderly.keys horderly.bare hinv
      (commitBlock_mem_of_mem_committedBlocks hblock) hcert

lemma certInv_step (hbls : env.bls.Lawful) {e : Event}
    (horderly : Orderly env s e) (hinv : CertInv env s.node.toTendermintConsensus) :
    CertInv env (s.step env e).node.toTendermintConsensus := by
  rw [step, TrackedConsensus.toTendermintConsensus_step, TendermintConsensus.step]
  by_cases hannounce : e.IsKeyAnnounce
  · obtain ⟨input, vid, pk, pop, sig, rfl⟩ := hannounce
    have hkeep := horderly.keep input vid pk pop sig rfl
    simpa [TendermintConsensus.handle, TendermintConsensus.onMessage, onKeyAnnounce, hkeep]
      using hinv
  · exact certInv_handle hbls horderly.keys horderly.bare hannounce hinv

lemma certified_step {e : Event} (hemitted : Emitted s e)
    (hcommits : CommitsCertified env s) (h : Certified env s) : Certified env (s.step env e) := by
  have hold (height : ℕ) (record : FinalityRecord)
      (hrecord : s.node.finalityTracker.records.lookup height = some record) :
      ∃ x ∈ (s.step env e).committed, height = x.2.number ∧ record.blockHash = blockHash env x.2 ∧
        Certifies env x.1 x.2 record.certificate := by
    obtain ⟨x, hx, hsound⟩ := h height record hrecord
    exact ⟨x, mem_append_left _ hx, hsound⟩
  intro height record hrecord
  cases e with
  | tick input =>
    simp only [step, TrackedConsensus.step, TrackedConsensus.tick] at hrecord
    split_ifs at hrecord <;> exact hold height record (by simpa using hrecord)
  | message input msg =>
    simp only [step, TrackedConsensus.step, TrackedConsensus.onMessage] at hrecord
    split_ifs at hrecord <;> exact hold height record (by simpa using hrecord)
  | committed input =>
    simp only [step, TrackedConsensus.step, TrackedConsensus.onBlockCommitted] at hrecord
    split at hrecord
    · exact hold height record hrecord
    · rename_i cert hcert
      simp only [FinalityTracker.onBlockFinalized, FinalityTracker.onBlockFinalizedWithActive]
        at hrecord
      split_ifs at hrecord
      all_goals first | exact hold height record hrecord | skip
      have hinsert := FinalityTracker.lookup_of_prune hrecord
      rw [Dict.lookup_insert_apply] at hinsert
      split_ifs at hinsert with heq
      · cases hinsert
        obtain ⟨x, hx, hblock⟩ := hemitted input rfl
        refine ⟨x, mem_append_left _ hx, by rw [hblock, heq], by rw [hblock], ?_⟩
        exact hcommits x hx _ (hblock ▸ hcert)
      · exact hold height record hinsert

/-- A node that holds neither blocks nor precommits nor records. -/
structure Fresh (s : FinalizingNode) : Prop where
  proposed : s.node.roundState.proposedBlock = none
  locked : s.node.lockedBlock = none
  signatures : s.node.roundState.precommitBlsSigs = ∅
  records : s.node.finalityTracker.records = ∅
  committed : s.committed = []

/-- In every orderly run of a fresh node all recorded finality is certified. -/
theorem certified_run (env : Env) (hbls : env.bls.Lawful) (s : FinalizingNode) (hfresh : Fresh s)
    (es : List Event) (hemitted : ∀ x ∈ trace (step env) s es, Emitted x.1 x.2)
    (horderly : ∀ x ∈ trace (step env) s es, Orderly env x.1 x.2) :
    Certified env (run (step env) s es) := by
  suffices h : CertInv env (run (step env) s es).node.toTendermintConsensus ∧
      CommitsCertified env (run (step env) s es) ∧ Certified env (run (step env) s es) from h.2.2
  refine run_induction (step env)
    (P := fun s _ => CertInv env s.node.toTendermintConsensus ∧ CommitsCertified env s ∧
      Certified env s)
    (G := fun s e => Emitted s e ∧ Orderly env s e) ?_ ?_ es
    fun x hx => ⟨hemitted x hx, horderly x hx⟩
  · refine ⟨⟨?_, ?_, ?_⟩, ?_, ?_⟩
    · intro block hblock
      simp [hfresh.proposed] at hblock
    · intro block hblock
      simp [hfresh.locked] at hblock
    · intro vid sig hash hsig
      simp [hfresh.signatures] at hsig
    · intro x hx
      simp [hfresh.committed] at hx
    · intro height record hrecord
      simp [hfresh.records] at hrecord
  · rintro s _ e ⟨hinv, hcommits, hcertified⟩ ⟨hemitted, horderly⟩
    exact ⟨certInv_step hbls horderly hinv, commitsCertified_step hbls horderly hinv hcommits,
      certified_step hemitted hcommits hcertified⟩

/-! ### Two runs -/

/-- The transparent environment with aggregates that can be checked. -/
def lawfulEnv : Env :=
  { transparentEnv with
    bls := { transparentBls with
      aggregateVerify := fun msg agg pks => agg == (pks.map (· ++ msg)).flatten } }

lemma lawful_lawfulEnv : lawfulEnv.bls.Lawful where
  verify_sign _ _ := beq_self_eq_true _
  aggregateVerify := by
    intro msg signed agg _ hverify hagg
    cases hagg
    have hsigs : signed.map (·.1) = (signed.map (·.2)).map (· ++ msg) := by
      rw [map_map]
      exact map_congr_left fun x hx => beq_iff_eq.mp (hverify x hx)
    exact beq_iff_eq.mpr (congrArg List.flatten hsigs)

/-- The validators of `fourKeyed` with verified proofs of possession. -/
def fourVerified : ValidatorSet where
  validators := fourKeyed.validators.map fun v => { v with popVerified := true }

def startNode : FinalizingNode :=
  ⟨⟨.new 1 fourVerified ChainId.empty (some [1]) 0, .new⟩, []⟩

lemma fresh_startNode : Fresh startNode := ⟨rfl, rfl, rfl, rfl, rfl⟩

def votingCalls (block : Block) : List Event :=
  [.message (callAt 0) (.proposal 1 0 block 4
      (some (4 :: blsVoteMessage ChainId.empty 1 0 (some (hashAt 1)) .proposal))),
    .message (callAt 0) (signedPrevote 2 0 (some (hashAt 1))),
    .message (callAt 0) (signedPrevote 4 0 (some (hashAt 1))),
    .message (callAt 0) (signedPrecommit 2 0 (some (hashAt 1))),
    .message (callAt 0) (signedPrecommit 4 0 (some (hashAt 1)))]

def lastCommitted (s : FinalizingNode) : Block := (s.committed.map (·.2)).getLastD (blockAt 1)

def commitCalls (block : Block) : List Event :=
  votingCalls block ++ [.committed
    { now := 0
      block := (run (step lawfulEnv) startNode (votingCalls block)).lastCommitted
      stateRoot := Hash.zero
      validatorSet := fourVerified
      weakSubjectivityCheckpoints := [] }]

def forgedCertificate : CommitCertificate := ⟨99, 0, Hash.zero, [], [1, 2, 3, 4]⟩

/-- The block with the forged certificate; its hash is that of the block without. -/
def prefilledBlock : Block := { blockAt 1 with commitCertificate := some forgedCertificate }

lemma emitted_commitCalls {block : Block}
    (hcommitted : (run (step lawfulEnv) startNode (votingCalls block)).committed ≠ []) :
    ∀ x ∈ trace (step lawfulEnv) startNode (commitCalls block), Emitted x.1 x.2 := by
  intro x hx input he
  rw [commitCalls, trace_append] at hx
  rcases List.mem_append.mp hx with hvotes | hlast
  · have hmem := snd_mem_of_mem_trace (step lawfulEnv) hvotes
    rw [he] at hmem
    simp [votingCalls] at hmem
  · simp only [trace, mem_singleton] at hlast
    subst hlast
    cases he
    have hne : (run (step lawfulEnv) startNode (votingCalls block)).committed.map (·.2) ≠ [] := by
      simpa using hcommitted
    obtain ⟨x, hx, hblock⟩ := List.mem_map.mp (getLast_mem hne)
    refine ⟨x, hx, ?_⟩
    rw [hblock, lastCommitted, List.getLastD_eq_getLast?, List.getLast?_eq_some_getLast hne]
    rfl

/-- The certificate that came with the proposal is recorded. -/
theorem prefilled_certificate_recorded :
    Fresh startNode ∧
    (∀ x ∈ trace (step lawfulEnv) startNode (commitCalls prefilledBlock), Emitted x.1 x.2) ∧
    ¬ Certified lawfulEnv (run (step lawfulEnv) startNode (commitCalls prefilledBlock)) := by
  refine ⟨fresh_startNode, emitted_commitCalls (by decide +kernel), fun hcertified => ?_⟩
  have hrecord : ((run (step lawfulEnv) startNode
      (commitCalls prefilledBlock)).node.finalityTracker.records.lookup 1).map
        (·.certificate.height) =
        some 99 := by decide +kernel
  obtain ⟨record, hlookup, hheight⟩ := Option.map_eq_some_iff.mp hrecord
  obtain ⟨x, -, hnumber, -, hcert⟩ := hcertified 1 record hlookup
  have := hcert.height
  omega

/-- Keys of a node, in decidable form. -/
lemma keysFit_of_eq {c : TendermintConsensus}
    (hverified : ∀ v ∈ c.validatorSet.validators, v.blsPublicKey.isSome ∧ v.popVerified = true)
    (hkeypair : c.blsKeypair = some [1])
    (hown : c.validatorSet.currentKey c.myId = some [1]) : KeysFit lawfulEnv c :=
  ⟨allVerified_of_mem hverified, [1], hkeypair, hown⟩

lemma orderly_commitCalls :
    ∀ x ∈ trace (step lawfulEnv) startNode (commitCalls (blockAt 1)),
      Orderly lawfulEnv x.1 x.2 := by
  intro x hx
  have hkeys : ∀ y ∈ trace (step lawfulEnv) startNode (commitCalls (blockAt 1)),
      (∀ v ∈ y.1.node.validatorSet.validators, v.blsPublicKey.isSome ∧ v.popVerified = true) ∧
      y.1.node.blsKeypair = some [1] ∧
      y.1.node.validatorSet.currentKey y.1.node.myId = some [1] := by decide +kernel
  obtain ⟨hverified, hkeypair, hown⟩ := hkeys x hx
  have hmem := snd_mem_of_mem_trace (step lawfulEnv) hx
  refine ⟨?_, keysFit_of_eq hverified hkeypair hown, ?_⟩
  · intro input height round block vid sig he
    rw [he] at hmem
    simp only [commitCalls, votingCalls, signedPrevote, signedPrecommit, cons_append,
      nil_append, mem_cons, Event.message.injEq,
      reduceCtorEq, and_false, or_false, not_mem_nil] at hmem
    obtain ⟨-, rfl, -, rfl, -⟩ := hmem
    exact ⟨rfl, rfl⟩
  · intro input vid pk pop sig he
    rw [he] at hmem
    simp [commitCalls, votingCalls, signedPrevote, signedPrecommit] at hmem

/-- Without certificate in the proposal the record of height 1 gets the one the node built. -/
theorem certified_run_four :
    ((run (step lawfulEnv) startNode
      (commitCalls (blockAt 1))).node.finalityTracker.records.lookup 1).map
        (·.certificate.signerIds) = some [1, 2, 4] ∧
    Certified lawfulEnv (run (step lawfulEnv) startNode (commitCalls (blockAt 1))) :=
  ⟨by decide +kernel, certified_run lawfulEnv lawful_lawfulEnv startNode fresh_startNode
    (commitCalls (blockAt 1)) (emitted_commitCalls (by decide +kernel)) orderly_commitCalls⟩

end FinalizingNode

end EvaporChain
