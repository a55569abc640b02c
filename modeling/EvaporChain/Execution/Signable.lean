import EvaporChain.Execution.Types

/-!
# The signed bytes of a transaction

The byte string whose hash names a transaction. It starts with a tag for the kind; where a kind
carries a nonce, the account that uses it and the nonce can be read off.
-/

namespace EvaporChain

open Core

def utf8Bytes (text : String) : Bytes := text.toUTF8.toList

/-- A byte string after its length in four bytes. -/
def sized (bytes : Bytes) : Bytes := leBytes 4 bytes.length ++ bytes

def TemporalGuard.signableBytes : TemporalGuard → Bytes
  | .afterEpoch epoch => 0x01 :: leBytes 8 epoch
  | .beforeEpoch epoch => 0x02 :: leBytes 8 epoch
  | .energyBelow id threshold => 0x03 :: id.toList ++ leBytes 8 threshold
  | .energyAbove id threshold => 0x04 :: id.toList ++ leBytes 8 threshold
  | .objectEvaporated id => 0x05 :: id.toList
  | .contractInPhase contractId phase => 0x06 :: leBytes 8 contractId ++ utf8Bytes phase

def GovernanceAction.signableBytes : GovernanceAction → Bytes
  | .createProposal title paramKey paramValue votingEpochs =>
    0x01 :: utf8Bytes title ++ utf8Bytes paramKey ++ utf8Bytes paramValue ++ leBytes 8 votingEpochs
  | .castVote proposalId vote => 0x02 :: leBytes 8 proposalId ++ [if vote then 1 else 0]

/-- The canonical bytes of a transaction; `curveJson` is the text of a decay curve. -/
def Transaction.signableBytes (curveJson : DecayCurve → Bytes) (tx : Transaction) : Bytes :=
  match tx.body with
  | .transfer t =>
    0x01 :: (t.fromAddr.toList ++ t.toAddr.toList ++ leBytes 8 t.amount ++ leBytes 8 t.nonce)
  | .refresh t => 0x02 :: (t.objectId.toList ++ leBytes 8 t.energyDeposit)
  | .createObject t =>
    0x03 :: (t.creator.toList ++ t.objectId.toList ++ leBytes 8 t.energy ++ leBytes 8 t.halfLife ++
      t.data ++ (t.decayCurve.map curveJson).getD [])
  | .deployContract t =>
    0x04 :: (t.deployer.toList ++ utf8Bytes t.template ++ utf8Bytes t.initArgs ++
      leBytes 8 t.energy ++ leBytes 8 t.halfLife)
  | .callContract t =>
    0x05 :: (t.caller.toList ++ leBytes 8 t.contractId ++ utf8Bytes t.method ++ utf8Bytes t.args)
  | .deployScript t =>
    0x06 :: (t.deployer.toList ++ utf8Bytes t.sourceCode ++ leBytes 8 t.energy ++
      leBytes 8 t.halfLife)
  | .callScript t =>
    0x07 :: (t.caller.toList ++ leBytes 8 t.contractId ++ utf8Bytes t.method ++ utf8Bytes t.args)
  | .validatorStake t =>
    0x08 :: (t.validatorAddress.toList ++ leBytes 8 t.stakeAmount ++ leBytes 8 t.validatorId ++
      leBytes 8 t.nonce ++ t.vrfPublicKey.getD [])
  | .validatorExit t =>
    0x09 :: (t.validatorAddress.toList ++ leBytes 8 t.validatorId ++ leBytes 8 t.nonce)
  | .validatorClaimStake t =>
    0x0F :: (t.validatorAddress.toList ++ leBytes 8 t.validatorId ++ leBytes 8 t.nonce)
  | .shield fromAddr => 0x0A :: (fromAddr.toList ++ tx.rest)
  | .unshield toAddr => 0x0B :: (toAddr.toList ++ tx.rest)
  -- anchor and fee stand before the nullifiers, the balance binding after the commitments
  | .privateTransfer inputNullifiers outputCommitments =>
    0x0C :: (tx.rest.take 40 ++ inputNullifiers.flatMap (·.toList) ++
      outputCommitments.flatMap (·.toList) ++ tx.rest.drop 40)
  | .deferred t =>
    0x0D :: (t.submitter.toList ++ leBytes 8 t.nonce ++ leBytes 8 t.deposit ++
      t.guards.flatMap (·.signableBytes) ++ t.innerTxBytes)
  | .blob t =>
    0x0E :: (t.submitter.toList ++ leBytes 8 t.nonce ++ leBytes 8 t.namespaceId ++ t.data)
  | .governance t => 0x10 :: (t.sender.toList ++ leBytes 8 t.nonce ++ t.action.signableBytes)
  | .multiSig t =>
    0x11 :: (t.multisigAddress.toList ++ leBytes 8 t.nonce ++ t.threshold ::
      (t.signers.flatMap (·.toList) ++ t.innerTxBytes))
  | .userOp t =>
    0x12 :: (t.sender.toList ++ leBytes 8 t.nonce ++ leBytes 8 t.callGasLimit ++ t.callData ++
      (t.paymaster.map (·.toList)).getD [])
  | .upgradeContract t =>
    0x13 :: (t.owner.toList ++ leBytes 8 t.contractId ++ leBytes 8 t.nonce ++
      (if t.governanceApproved then 1 else 0) :: (t.newBytecode ++ t.newBytecodeHash.toList ++
        leBytes 4 t.endorserStakes.length ++ t.endorserStakes.flatMap (leBytes 8) ++
        leBytes 8 t.requiredStake))
  | .delegate t =>
    0x14 :: (t.delegator.toList ++ leBytes 8 t.validatorId ++ leBytes 8 t.amount ++
      leBytes 8 t.nonce)
  | .undelegate t =>
    0x15 :: (t.delegator.toList ++ leBytes 8 t.validatorId ++ leBytes 8 t.amount ++
      leBytes 8 t.nonce)
  | .rotateValidatorKey t =>
    0x16 :: (t.validatorAddress.toList ++ leBytes 8 t.validatorId ++ sized t.newBlsPublicKey ++
      sized t.blsPopOld ++ sized t.blsPopNew ++ leBytes 8 t.effectiveEpoch ++ leBytes 8 t.nonce)
  | .claimDelegation t =>
    0x17 :: (t.delegator.toList ++ leBytes 8 t.validatorId ++ leBytes 8 t.nonce)
  | .refund t =>
    0x18 :: (leBytes 8 t.sourceBlockHeight ++ leBytes 8 t.sourceObservationIdx ++
      t.attacker.toList ++ t.victim.toList ++ leBytes 8 t.amount ++ leBytes 8 t.settleBlockHeight)
  | .deployTemplate t =>
    0x19 :: (t.deployer.toList ++ leBytes 4 t.templateClass ++ sized t.params ++
      leBytes 8 t.nonce ++ leBytes 8 t.submittedAtEpoch)

/-- The account and the nonce that a transaction uses up, for the kinds that check a nonce. -/
def TxBody.nonceSlot : TxBody → Option (AccountAddress × ℕ)
  | .transfer t => some (t.fromAddr, t.nonce)
  | .validatorStake t => some (t.validatorAddress, t.nonce)
  | .validatorExit t => some (t.validatorAddress, t.nonce)
  | .validatorClaimStake t => some (t.validatorAddress, t.nonce)
  | .governance t => some (t.sender, t.nonce)
  | .multiSig t => some (t.multisigAddress, t.nonce)
  | .userOp t => some (t.sender, t.nonce)
  | .upgradeContract t => some (t.owner, t.nonce)
  | .delegate t => some (t.delegator, t.nonce)
  | .undelegate t => some (t.delegator, t.nonce)
  | .rotateValidatorKey t => some (t.validatorAddress, t.nonce)
  | .claimDelegation t => some (t.delegator, t.nonce)
  | _ => none

/-- Where the nonce stands behind the tag; that of a key rotation is at the end. -/
def nonceOffset (tag : UInt8) (length : ℕ) : Option ℕ :=
  if tag = 0x01 then some 72
  else if tag = 0x08 ∨ tag = 0x14 ∨ tag = 0x15 then some 48
  else if tag = 0x09 ∨ tag = 0x0F ∨ tag = 0x13 ∨ tag = 0x17 then some 40
  else if tag = 0x10 ∨ tag = 0x11 ∨ tag = 0x12 then some 32
  else if tag = 0x16 then some (length - 8)
  else none

/-- Read account and nonce off signed bytes. -/
def slotBytes : Bytes → Option (Bytes × Bytes)
  | [] => none
  | tag :: body =>
    (nonceOffset tag body.length).map fun offset => (body.take 32, (body.drop offset).take 8)

lemma slotBytes_of_offset {tag : UInt8} (addr : AccountAddress) (middle : Bytes) (nonce : ℕ)
    (rest : Bytes)
    (h : nonceOffset tag (40 + middle.length + rest.length) = some (32 + middle.length) := by
      simp [nonceOffset]) :
    slotBytes (tag :: (addr.toList ++ middle ++ leBytes 8 nonce ++ rest)) =
      some (addr.toList, leBytes 8 nonce) := by
  have hlength : (addr.toList ++ middle ++ leBytes 8 nonce ++ rest).length =
      40 + middle.length + rest.length := by
    simp only [List.length_append, List.Vector.toList_length, leBytes_length]
    omega
  have haddr : (addr.toList ++ middle ++ leBytes 8 nonce ++ rest).take 32 = addr.toList := by
    simp only [List.append_assoc]
    exact List.take_left' (List.Vector.toList_length addr)
  have hnonce : ((addr.toList ++ middle ++ leBytes 8 nonce ++ rest).drop
      (32 + middle.length)).take 8 = leBytes 8 nonce := by
    rw [List.append_assoc (addr.toList ++ middle), List.drop_left' (by simp)]
    exact List.take_left' (leBytes_length 8 nonce)
  simp only [slotBytes, hlength, h, Option.map_some, haddr, hnonce]

/-- The signed bytes tell which nonce of which account a transaction uses up, if any. -/
lemma slotBytes_signableBytes (curveJson : DecayCurve → Bytes) (tx : Transaction) :
    slotBytes (tx.signableBytes curveJson) =
      tx.body.nonceSlot.map fun slot => (slot.1.toList, leBytes 8 slot.2) := by
  unfold Transaction.signableBytes TxBody.nonceSlot
  cases tx.body
  case transfer t =>
    simpa using slotBytes_of_offset t.fromAddr (t.toAddr.toList ++ leBytes 8 t.amount) t.nonce []
  case validatorStake t =>
    simpa using slotBytes_of_offset t.validatorAddress
      (leBytes 8 t.stakeAmount ++ leBytes 8 t.validatorId) t.nonce (t.vrfPublicKey.getD [])
  case validatorExit t =>
    simpa using slotBytes_of_offset t.validatorAddress (leBytes 8 t.validatorId) t.nonce []
  case validatorClaimStake t =>
    simpa using slotBytes_of_offset t.validatorAddress (leBytes 8 t.validatorId) t.nonce []
  case governance t =>
    simpa using slotBytes_of_offset t.sender [] t.nonce t.action.signableBytes
  case multiSig t =>
    simpa using slotBytes_of_offset t.multisigAddress [] t.nonce
      (t.threshold :: (t.signers.flatMap (·.toList) ++ t.innerTxBytes))
  case userOp t =>
    simpa using slotBytes_of_offset t.sender [] t.nonce (leBytes 8 t.callGasLimit ++ t.callData ++
      (t.paymaster.map (·.toList)).getD [])
  case upgradeContract t =>
    simpa using slotBytes_of_offset t.owner (leBytes 8 t.contractId) t.nonce
      ((if t.governanceApproved then 1 else 0) :: (t.newBytecode ++ t.newBytecodeHash.toList ++
        leBytes 4 t.endorserStakes.length ++ t.endorserStakes.flatMap (leBytes 8) ++
        leBytes 8 t.requiredStake))
  case delegate t =>
    simpa using slotBytes_of_offset t.delegator (leBytes 8 t.validatorId ++ leBytes 8 t.amount)
      t.nonce []
  case undelegate t =>
    simpa using slotBytes_of_offset t.delegator (leBytes 8 t.validatorId ++ leBytes 8 t.amount)
      t.nonce []
  case rotateValidatorKey t =>
    simpa using slotBytes_of_offset t.validatorAddress
      (leBytes 8 t.validatorId ++ sized t.newBlsPublicKey ++ sized t.blsPopOld ++
        sized t.blsPopNew ++ leBytes 8 t.effectiveEpoch) t.nonce []
      (by simp [nonceOffset]; omega)
  case claimDelegation t =>
    simpa using slotBytes_of_offset t.delegator (leBytes 8 t.validatorId) t.nonce []
  all_goals rfl

/-- Transactions with the same signed bytes use up the same nonce. -/
theorem nonceSlot_eq_of_signableBytes {curveJson : DecayCurve → Bytes} {tx tx' : Transaction}
    (h : tx.signableBytes curveJson = tx'.signableBytes curveJson)
    (htx : ∀ slot ∈ tx.body.nonceSlot, slot.2 < 2 ^ 64)
    (htx' : ∀ slot ∈ tx'.body.nonceSlot, slot.2 < 2 ^ 64) :
    tx.body.nonceSlot = tx'.body.nonceSlot := by
  have hslot := congrArg slotBytes h
  rw [slotBytes_signableBytes, slotBytes_signableBytes] at hslot
  cases hs : tx.body.nonceSlot with
  | none =>
    rw [hs] at hslot
    exact (Option.map_eq_none_iff.mp hslot.symm).symm
  | some slot =>
    cases hs' : tx'.body.nonceSlot with
    | none => simp [hs, hs'] at hslot
    | some slot' =>
      rw [hs, hs', Option.map_some, Option.map_some, Option.some_inj, Prod.mk.injEq] at hslot
      have hnonce := leBytes_inj (htx slot hs) (htx' slot' hs') hslot.2
      rw [Prod.ext (List.Vector.toList_injective hslot.1) hnonce]

end EvaporChain
