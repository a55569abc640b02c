import EvaporChain.Core.Bytes

/-!
# BLS signatures and the messages validators sign

`Bls` collects the operations of the signature crate the engine calls. `IdealBls` adds what
an ideal scheme promises: an aggregate verifies only if every listed key signed the message.
The three kinds of signed byte strings (votes, key rotations, data-availability attestations)
are built here, and shown to be told apart by their bytes.
-/

namespace EvaporChain

open Core

/-- Operations of the BLS scheme. Keys, messages and signatures are byte strings. -/
structure Bls where
  /-- `verify msg sig pk` -/
  verify : Bytes → Bytes → Bytes → Bool
  /-- `aggregateVerify msg sig pks` -/
  aggregateVerify : Bytes → Bytes → List Bytes → Bool
  aggregateSignatures : List Bytes → Option Bytes
  /-- `verifyProofOfPossession pk pop` -/
  verifyProofOfPossession : Bytes → Bytes → Bool
  /-- `sign sk msg` -/
  sign : Bytes → Bytes → Bytes
  publicKeyBytes : Bytes → Bytes
  proofOfPossession : Bytes → Bytes

/-- An ideal scheme: `Signed pk msg` says that the holder of `pk` signed `msg`. -/
structure IdealBls extends Bls where
  Signed : Bytes → Bytes → Prop
  aggregateVerify_sound : ∀ {msg sig pks}, aggregateVerify msg sig pks = true →
    pks ≠ [] ∧ ∀ pk ∈ pks, Signed pk msg

/-- The scheme in which exactly the pairs of `signed` were signed: an aggregate is accepted
when every listed key signed. -/
def IdealBls.ofSigned (signed : Bytes → Bytes → Bool) : IdealBls where
  verify msg _ pk := signed pk msg
  aggregateVerify msg _ pks := !pks.isEmpty && pks.all (signed · msg)
  aggregateSignatures sigs := some sigs.flatten
  verifyProofOfPossession _ _ := true
  sign _ _ := []
  publicKeyBytes sk := sk
  proofOfPossession _ := []
  Signed pk msg := signed pk msg = true
  aggregateVerify_sound h := by simpa using h

instance (signed : Bytes → Bytes → Bool) (pk msg : Bytes) :
    Decidable ((IdealBls.ofSigned signed).Signed pk msg) :=
  inferInstanceAs (Decidable (signed pk msg = true))

/-- A chain identifier: signing asserts that it is shorter than 256 bytes. -/
structure ChainId where
  bytes : Bytes
  length_lt : bytes.length < 256
deriving DecidableEq

def ChainId.empty : ChainId := ⟨[], by decide⟩

/-- The three kinds of signed consensus votes. -/
inductive VotePhase
  | proposal
  | prevote
  | precommit
deriving DecidableEq, Repr

/-- ASCII text of a phase: `proposal`, `prevote`, `precommit`. -/
def VotePhase.bytes : VotePhase → Bytes
  | .proposal => [112, 114, 111, 112, 111, 115, 97, 108]
  | .prevote => [112, 114, 101, 118, 111, 116, 101]
  | .precommit => [112, 114, 101, 99, 111, 109, 109, 105, 116]

/-- The bytes signed for a vote; a vote for nil carries no hash. -/
def blsVoteMessage (chainId : ChainId) (height round : ℕ) (blockHash : Option Hash)
    (phase : VotePhase) : Bytes :=
  UInt8.ofNat chainId.bytes.length :: chainId.bytes ++ phase.bytes ++ leBytes 8 height ++
    leBytes 4 round ++ (blockHash.map List.Vector.toList).getD []

/-- ASCII of `EvaporChain_BLS_Rotate_v1` and a zero byte. -/
def rotateDst : Bytes :=
  [69, 118, 97, 112, 111, 114, 67, 104, 97, 105, 110, 95, 66, 76, 83, 95, 82, 111, 116, 97, 116,
    101, 95, 118, 49, 0]

/-- The bytes the old key signs to authorise a rotation to `newPk`. -/
def blsContinuityMessage (chainId : ChainId) (validatorId : ℕ) (newPk : Bytes) : Bytes :=
  rotateDst ++ UInt8.ofNat chainId.bytes.length :: chainId.bytes ++ leBytes 8 validatorId ++ newPk

/-- ASCII of `evaporchain:da-attestation:v1:`. -/
def daAttestationDst : Bytes :=
  [101, 118, 97, 112, 111, 114, 99, 104, 97, 105, 110, 58, 100, 97, 45, 97, 116, 116, 101, 115,
    116, 97, 116, 105, 111, 110, 58, 118, 49, 58]

def daAttestationMessage (blockNumber : ℕ) (dataRoot : Hash) (validatorId samplesVerified
    stake : ℕ) : Bytes :=
  daAttestationDst ++ leBytes 8 blockNumber ++ dataRoot.toList ++ leBytes 8 validatorId ++
    leBytes 4 samplesVerified ++ leBytes 8 stake

/-! ### Signed messages are told apart by their bytes -/

@[simp] lemma blsVoteMessage_length (c : ChainId) (h r : ℕ) (b : Option Hash) (p : VotePhase) :
    (blsVoteMessage c h r b p).length =
      c.bytes.length + p.bytes.length + 13 + (if b.isSome then 32 else 0) := by
  cases b <;> simp [blsVoteMessage] <;> omega

/-- On one chain and at one height, a vote message determines its round, hash and phase. -/
theorem blsVoteMessage_inj {c : ChainId} {h r r' : ℕ} {b b' : Option Hash} {p p' : VotePhase}
    (hr : r < 2 ^ 32) (hr' : r' < 2 ^ 32)
    (heq : blsVoteMessage c h r b p = blsVoteMessage c h r' b' p') : r = r' ∧ b = b' ∧ p = p' := by
  -- lengths of the phase texts differ by at most two, so the length fixes the phase and
  -- whether a hash is present
  have hlen := congrArg List.length heq
  have hp : p = p' := by
    cases p <;> cases p' <;> cases b <;> cases b' <;> simp [VotePhase.bytes] at hlen ⊢
  subst hp
  have hb : b.isSome = b'.isSome := by
    cases b <;> cases b' <;> simp at hlen ⊢
  simp only [blsVoteMessage, List.append_assoc, List.append_cancel_left_eq] at heq
  obtain ⟨hround, hhash⟩ := List.append_inj heq (by simp)
  refine ⟨leBytes_inj (by simpa using hr) (by simpa using hr') hround, ?_, rfl⟩
  match b, b', hb with
  | none, none, _ => rfl
  | some x, some y, _ => exact congrArg some (List.Vector.toList_injective (by simpa using hhash))

end EvaporChain
