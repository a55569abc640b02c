import EvaporChain.Execution.Ledger

/-!
# Handlers of the serial executor

What each kind of transaction that needs only the database does. A handler returns the database it
leaves also when it fails: what was written before the failing check stays.
-/

namespace EvaporChain

open Core

namespace Simple

/-- A result together with the state left behind. -/
abbrev Handled (σ : Type) := Except ExecutionError Unit × σ

def unbondingPeriodEpochs : ℕ := 256

section

variable (epoch : ℕ)

/-! ### Transfers and objects -/

variable (tx : TransferTx)

/-- What a sender can transfer. The zero address mints: its balance is not vested. -/
def spendable (sender : Account) : ℕ :=
  if tx.fromAddr = Hash.zero then sender.balance else sender.transferableBalance epoch

/-- The sender after a transfer. The zero address has no nonce. -/
def payTransfer (sender : Account) : Account :=
  if tx.fromAddr = Hash.zero then sender.debit tx.amount epoch
  else (sender.debit tx.amount epoch).bumpNonce epoch

def executeTransfer (db : Ledger) : Handled Ledger :=
  if tx.fromAddr = tx.toAddr then (.error .selfTransfer, db)
  else if tx.amount = 0 then (.error .zeroAmount, db)
  else
    let sender := db.account tx.fromAddr
    let available := spendable epoch tx sender
    if tx.fromAddr ≠ Hash.zero ∧ sender.nonce ≠ tx.nonce then
      (.error (.invalidNonce sender.nonce tx.nonce), db.touchAccount tx.fromAddr)
    else if available < tx.amount then
      (.error (.insufficientBalance (hexEncode tx.fromAddr.toList) available tx.amount),
        db.touchAccount tx.fromAddr)
    else
      (.ok (), (db.updateAccount tx.fromAddr (payTransfer epoch tx)).updateAccount tx.toAddr
        (·.credit tx.amount epoch))

/-- A refund is issued by the protocol and has no nonce. -/
def executeRefund (tx : RefundTx) (db : Ledger) : Handled Ledger :=
  if tx.attacker = tx.victim then (.error .selfTransfer, db)
  else if tx.amount = 0 then (.error .zeroAmount, db)
  else
    let attacker := db.account tx.attacker
    if attacker.balance < tx.amount then
      (.error (.insufficientBalance (hexEncode tx.attacker.toList) attacker.balance tx.amount),
        db.touchAccount tx.attacker)
    else
      (.ok (), (db.updateAccount tx.attacker (·.debit tx.amount epoch)).updateAccount tx.victim
        (·.credit tx.amount epoch))

/-- Lock the storage deposit of an account, if it can pay. -/
def chargeDeposit (addr : AccountAddress) (bytes : ℕ) (db : Ledger) : Handled Ledger :=
  let available := (db.account addr).transferableBalance epoch
  if available < minStorageDeposit then
    (.error (.insufficientBalance (hexEncode addr.toList) available minStorageDeposit),
      db.touchAccount addr)
  else (.ok (), db.updateAccount addr (·.lockDeposit bytes epoch))

def executeCreateObject (tx : CreateObjectTx) (db : Ledger) : Handled Ledger :=
  if (db.objects tx.objectId).isSome then
    (.error (.objectAlreadyExists (hexEncode tx.objectId.toList)), db)
  else match chargeDeposit epoch tx.creator (satAdd 97 tx.data.length) db with
    | (.error e, db) => (.error e, db)
    | (.ok (), db) => (.ok (), db.putObject (tx.object epoch))

/-! ### Refresh -/

/-- Refresh an existing object; one in grace becomes active again. -/
def refresh (tx : RefreshTx) (obj : StateObject) (db : Ledger) : Handled Ledger :=
  if tx.energyDeposit = 0 then (.error (.refreshFailed RefreshError.zeroEnergy.toString), db)
  else match obj.state with
    | .active | .resurrected =>
      (.ok (), db.putObject
        { obj with energy := satAdd obj.energy tx.energyDeposit, lastRefreshed := epoch })
    | .grace =>
      (.ok (), db.putObject
        { obj with
          energy := tx.energyDeposit
          state := .active
          lastRefreshed := epoch
          graceEpoch := none })
    | .ghost =>
      (.error (.refreshFailed
        (RefreshError.objectNotFound (hexEncode tx.objectId.toList)).toString), db)

/-- Bring a ghost back, if its data was retained. -/
def resurrect (tx : RefreshTx) (ghost : GhostRecord) (db : Ledger) : Handled Ledger :=
  if tx.energyDeposit = 0 then (.error (.refreshFailed RefreshError.zeroEnergy.toString), db)
  else match ghost.originalData with
    | none =>
      (.error (.refreshFailed
        (RefreshError.dataNotAvailable (hexEncode tx.objectId.toList)).toString), db)
    | some data =>
      (.ok (), (db.removeGhost tx.objectId).putObject
        (ghost.revived tx.objectId tx.energyDeposit (ghost.originalHalfLife.getD 100) epoch data))

/-- A caller other than the owner; a transaction without a key is let through. -/
def strangerTo (owner : AccountAddress) (sender : Option AccountAddress) : Option AccountAddress :=
  sender.filter (· ≠ owner)

def executeRefresh (sender : Option AccountAddress) (tx : RefreshTx) (db : Ledger) :
    Handled Ledger :=
  match db.objects tx.objectId, db.ghosts tx.objectId with
  | some obj, _ =>
    match strangerTo obj.owner sender with
    | some stranger =>
      let got := hexEncode stranger.toList
      let expected := hexEncode obj.owner.toList
      (.error (.refreshFailed
        s!"GHOST-B: refresh caller must be object owner; got {got} expected {expected}"), db)
    | none => refresh epoch tx obj db
  | none, some ghost =>
    match strangerTo ghost.owner sender with
    | some stranger =>
      let got := hexEncode stranger.toList
      let expected := hexEncode ghost.owner.toList
      (.error (.refreshFailed
        s!"GHOST-B: resurrect caller must be ghost owner; got {got} expected {expected}"), db)
    | none => resurrect epoch tx ghost db
  | none, none => (.error (.objectNotFound (hexEncode tx.objectId.toList)), db)

/-! ### Stakes -/

/-- The record a stake leaves: the amount is added, everything else is overwritten. -/
def stakeOf (tx : ValidatorStakeTx) (existing : Option StakeRecord) : StakeRecord where
  validatorId := tx.validatorId
  validatorAddress := tx.validatorAddress
  stakedAmount := ((existing.map (·.stakedAmount)).getD 0 + tx.stakeAmount) % 2 ^ 64
  stakedAtEpoch := epoch
  unbondingEpoch := none
  slashedAmount := 0

def executeValidatorStake (tx : ValidatorStakeTx) (db : Ledger) : Handled Ledger :=
  if tx.stakeAmount = 0 then (.error .zeroAmount, db)
  else
    let sender := db.account tx.validatorAddress
    let available := sender.transferableBalance epoch
    if sender.nonce ≠ tx.nonce then
      (.error (.invalidNonce sender.nonce tx.nonce), db.touchAccount tx.validatorAddress)
    else if available < tx.stakeAmount then
      (.error (.insufficientBalance (hexEncode tx.validatorAddress.toList) available
        tx.stakeAmount), db.touchAccount tx.validatorAddress)
    else
      (.ok (), (db.updateAccount tx.validatorAddress fun acct =>
        (acct.debit tx.stakeAmount epoch).bumpNonce epoch).putStake
          (stakeOf epoch tx (db.stakes.lookup tx.validatorId)))

def noStakeRecord (validatorId : ℕ) : ExecutionError :=
  .objectNotFound s!"no stake record for validator {validatorId}"

def executeValidatorExit (tx : ValidatorExitTx) (db : Ledger) : Handled Ledger :=
  let sender := db.account tx.validatorAddress
  if sender.nonce ≠ tx.nonce then
    (.error (.invalidNonce sender.nonce tx.nonce), db.touchAccount tx.validatorAddress)
  else
    let db := db.updateAccount tx.validatorAddress (·.bumpNonce epoch)
    match db.stakes.lookup tx.validatorId with
    | none => (.error (noStakeRecord tx.validatorId), db)
    | some stake =>
      if stake.validatorAddress ≠ tx.validatorAddress then (.error .invalidSignature, db)
      else if stake.unbondingEpoch.isSome then
        (.error (.contractError "validator already exiting"), db)
      else
        (.ok (), db.putStake
          { stake with unbondingEpoch := some ((epoch + unbondingPeriodEpochs) % 2 ^ 64) })

/-- The nonce is checked last. -/
def executeValidatorClaimStake (tx : ValidatorClaimStakeTx) (db : Ledger) : Handled Ledger :=
  match db.stakes.lookup tx.validatorId with
  | none => (.error (noStakeRecord tx.validatorId), db)
  | some stake =>
    if stake.validatorAddress ≠ tx.validatorAddress then (.error .invalidSignature, db)
    else match stake.unbondingEpoch with
      | none =>
        (.error (.contractError "validator has not exited — cannot claim stake"), db)
      | some unbonding =>
        let sender := db.account tx.validatorAddress
        if epoch < unbonding then
          (.error (.contractError s!"unbonding period not complete: current epoch {epoch} < unbonding epoch {unbonding}"), db)
        else if sender.nonce ≠ tx.nonce then
          (.error (.invalidNonce sender.nonce tx.nonce), db.touchAccount tx.validatorAddress)
        else
          (.ok (), (db.updateAccount tx.validatorAddress
            (·.claim stake.claimable epoch)).removeStake tx.validatorId)

/-! ### Delegations -/

def delegationOf (tx : DelegateTx) : Option DelegationRecord → DelegationRecord
  | some r => { r with amount := satAdd r.amount tx.amount, delegatedAtEpoch := epoch }
  | none =>
    { delegator := tx.delegator
      validatorId := tx.validatorId
      amount := tx.amount
      delegatedAtEpoch := epoch
      unbondingAmount := 0
      unbondingEpoch := none }

def executeDelegate (tx : DelegateTx) (db : Ledger) : Handled Ledger :=
  let validatorId := tx.validatorId
  if tx.amount = 0 then (.error .zeroAmount, db)
  else if (db.stakes.lookup validatorId).isNone then
    (.error (.contractError
      s!"validator-id {validatorId} has no stake record; cannot accept delegations"), db)
  else
    let delegator := db.account tx.delegator
    let available := delegator.transferableBalance epoch
    if delegator.nonce ≠ tx.nonce then
      (.error (.invalidNonce delegator.nonce tx.nonce), db.touchAccount tx.delegator)
    else if available < tx.amount then
      (.error (.insufficientBalance (hexEncode tx.delegator.toList) available tx.amount),
        db.touchAccount tx.delegator)
    else
      (.ok (), (db.updateAccount tx.delegator fun acct =>
        (acct.debit tx.amount epoch).bumpNonce epoch).putDelegation
          (delegationOf epoch tx (db.delegations.lookup (tx.delegator, validatorId))))

def noDelegation (delegator : AccountAddress) (validatorId : ℕ) : ExecutionError :=
  let name := hexEncode delegator.toList
  .contractError s!"no delegation from {name} to validator-id {validatorId}"

def executeUndelegate (tx : UndelegateTx) (db : Ledger) : Handled Ledger :=
  if tx.amount = 0 then (.error .zeroAmount, db)
  else
    let acct := db.account tx.delegator
    if acct.nonce ≠ tx.nonce then
      (.error (.invalidNonce acct.nonce tx.nonce), db.touchAccount tx.delegator)
    else
      let db := db.updateAccount tx.delegator (·.bumpNonce epoch)
      match db.delegations.lookup (tx.delegator, tx.validatorId) with
      | none => (.error (noDelegation tx.delegator tx.validatorId), db)
      | some record =>
        let available := record.amount
        let amount := tx.amount
        if available < amount then
          (.error (.contractError
            s!"delegation has only {available} but tried to undelegate {amount}"), db)
        else
          (.ok (), db.putDelegation (record.unbond amount epoch))

def executeClaimDelegation (tx : ClaimDelegationTx) (db : Ledger) : Handled Ledger :=
  let acct := db.account tx.delegator
  if acct.nonce ≠ tx.nonce then
    (.error (.invalidNonce acct.nonce tx.nonce), db.touchAccount tx.delegator)
  else
    let db := db.updateAccount tx.delegator (·.bumpNonce epoch)
    match db.delegations.lookup (tx.delegator, tx.validatorId) with
    | none => (.error (noDelegation tx.delegator tx.validatorId), db)
    | some record =>
      if record.unbondingAmount = 0 then
        (.error (.contractError "no unbonding amount to claim"), db)
      else match record.unbondingEpoch with
        | none => (.error (.contractError "unbonding_epoch unset"), db)
        | some unbondingStarted =>
          let claimReadyAt := satAdd unbondingStarted unbondingPeriodEpochs
          if epoch < claimReadyAt then
            (.error (.contractError s!"unbonding period not elapsed: claimable at epoch {claimReadyAt} (current {epoch})"), db)
          else
            let db := db.adjustAccount tx.delegator (·.credit record.unbondingAmount epoch)
            if record.amount = 0 then (.ok (), db.removeDelegation tx.delegator tx.validatorId)
            else
              (.ok (), db.putDelegation record.release)

/-! ### Governance -/

def maxVoteWeight : ℕ := 10000000

def quorumMinTotalWeight : ℕ := 30000000

def quorumMinVoters : ℕ := 3

def governanceTimelockEpochs : ℕ := 5

/-- `u64::from_str`: an optional plus sign and decimal digits. -/
def parseU64 (text : String) : Option ℕ :=
  let digits : List Char :=
    match text.toList with
    | '+' :: ds => ds
    | ds => ds
  let value := digits.foldl (fun n c => 10 * n + (c.toNat - 48)) 0
  if digits ≠ [] ∧ digits.all Char.isDigit ∧ value ≤ u64Max then some value else none

def upgradeKey : String := "upgrade_contract:"

def governableParamKeys : List String :=
  ["block_gas_limit", "base_fee_floor", "base_fee_ceiling", "target_gas_utilization",
    "chain_lambda_half_life"]

def isGovernableParamKey (key : String) : Bool :=
  key ∈ governableParamKeys || key.startsWith upgradeKey

def isAsciiHexdigit (c : Char) : Bool :=
  c.isDigit || ('a' ≤ c && c ≤ 'f') || ('A' ≤ c && c ≤ 'F')

/-- Check of a parameter that is a natural number. -/
def validateNat (value missing : String) (lo hi : ℕ) (outside : ℕ → String) : Except String Unit :=
  match parseU64 value with
  | none => .error missing
  | some v => if lo ≤ v ∧ v ≤ hi then .ok () else .error (outside v)

variable (validUtilization : String → Except String Unit)

/-- Whether a value suits its key; `validUtilization` is the check of the floating-point one. -/
def validateParamValue (key value : String) : Except String Unit :=
  if key = "block_gas_limit" then
    validateNat value "block_gas_limit must be a non-negative integer" 1000 10000000000
      fun v => s!"block_gas_limit out of range [1_000, 10_000_000_000]: {v}"
  else if key = "base_fee_floor" ∨ key = "base_fee_ceiling" then
    validateNat value s!"{key} must be a non-negative integer" 0 1000000000000
      fun _ => s!"{key} must be ≤ 1_000_000_000_000 (1 trillion)"
  else if key = "target_gas_utilization" then validUtilization value
  else if key = "chain_lambda_half_life" then
    validateNat value "chain_lambda_half_life must be a positive integer" 1 1000000000
      fun v => s!"chain_lambda_half_life out of range [1, 1_000_000_000] epochs: {v}"
  else if key.startsWith upgradeKey then
    if value.utf8ByteSize = 64 ∧ value.toList.all isAsciiHexdigit then .ok ()
    else .error "upgrade_contract value must be 64-char hex (blake3 of new bytecode)"
  else .error s!"param_key '{key}' is not on the governable allowlist"

def checkProposal
    (title paramKey paramValue : String) (votingEpochs : ℕ) : Except ExecutionError Unit :=
  let titleLen := title.utf8ByteSize
  let keyLen := paramKey.utf8ByteSize
  let valueLen := paramValue.utf8ByteSize
  if 200 < titleLen then .error (.contractError s!"proposal title exceeds 200 bytes ({titleLen})")
  else if 64 < keyLen then .error (.contractError s!"param_key exceeds 64 bytes ({keyLen})")
  else if 256 < valueLen then
    .error (.contractError s!"param_value exceeds 256 bytes ({valueLen})")
  else if ¬(10 ≤ votingEpochs ∧ votingEpochs ≤ 100000) then
    .error (.contractError s!"voting_epochs out of range [10, 100000]: {votingEpochs}")
  else if !isGovernableParamKey paramKey then
    .error (.contractError s!"param_key '{paramKey}' is not on the governable allowlist")
  else match validateParamValue validUtilization paramKey paramValue with
    | .error e => .error (.contractError s!"invalid param_value: {e}")
    | .ok () => .ok ()

variable (proposal : GovernanceProposal)

/-- Quorum in weight and voters, then a two-thirds majority. -/
def decideProposalOutcome : ProposalStatus :=
  if satAdd proposal.votesFor proposal.votesAgainst < quorumMinTotalWeight ∨
      proposal.voters.length < quorumMinVoters then .rejected
  else if satMul proposal.votesAgainst 2 < proposal.votesFor then .passed
  else .rejected

def recordVote (voter : AccountAddress) (balance : ℕ) (vote : Bool) : GovernanceProposal :=
  let weight := min balance maxVoteWeight
  if vote then
    { proposal with
      voters := voter :: proposal.voters
      votesFor := satAdd proposal.votesFor weight }
  else
    { proposal with
      voters := voter :: proposal.voters
      votesAgainst := satAdd proposal.votesAgainst weight }

/-- A vote that comes too late closes the proposal and fails. -/
def castVote (voter : AccountAddress) (proposalId : ℕ) (vote : Bool) (db : Ledger) :
    Handled Ledger :=
  match db.proposals.lookup proposalId with
  | none          => (.error (.contractError s!"proposal {proposalId} not found"), db)
  | some proposal =>
    if proposal.status ≠ .active then (.error (.contractError "proposal is not active"), db)
    else if proposal.endEpoch < epoch then
      (.error (.contractError "voting period has ended"),
        db.putProposal { proposal with status := decideProposalOutcome proposal })
    else if voter ∈ proposal.voters then
      (.error (.contractError "duplicate vote: account has already voted on this proposal"), db)
    else
      (.ok (), db.putProposal (recordVote proposal voter (db.account voter).balance vote))

def executeGovernance (validUtilization : String → Except String Unit) (tx : GovernanceTx)
    (db : Ledger) : Handled Ledger :=
  let sender := db.account tx.sender
  if sender.nonce ≠ tx.nonce then
    (.error (.invalidNonce sender.nonce tx.nonce), db.touchAccount tx.sender)
  else
    let db := db.updateAccount tx.sender (·.bumpNonce epoch)
    match tx.action with
    | .castVote proposalId vote => castVote epoch tx.sender proposalId vote db
    | .createProposal title paramKey paramValue votingEpochs =>
      match checkProposal validUtilization title paramKey paramValue votingEpochs with
      | .error e => (.error e, db)
      | .ok () =>
        (.ok (), db.putProposal
          { proposalId := db.proposals.entries.length, proposer := tx.sender, title := title
            paramKey := paramKey, paramValue := paramValue, startEpoch := epoch
            endEpoch := (epoch + votingEpochs) % 2 ^ 64, votesFor := 0, votesAgainst := 0
            status := .active, createdAt := epoch, voters := [] })

/-! ### Multi-signature accounts -/

/-- Signers are distinct and authorised. Their signatures are not looked at. -/
def checkSigners (signers : List AccountAddress) :
    List AccountAddress → List (AccountAddress × Bytes) → Except ExecutionError Unit
  | _, [] => .ok ()
  | seen, (signer, _) :: rest =>
    if signer ∈ seen then
      .error (.contractError "duplicate signer in multisig transaction")
    else if signer ∉ signers then
      .error (.contractError "signer not in authorized signers list")
    else checkSigners signers (signer :: seen) rest

/-- The inner transaction is not executed. -/
def executeMultisig (tx : MultiSigTx) (db : Ledger) : Handled Ledger :=
  let required := tx.threshold
  let got := tx.signatures.length
  if UInt8.ofNat got < required then
    (.error (.contractError s!"multi-sig requires {required} signatures, got {got}"), db)
  else match checkSigners tx.signers [] tx.signatures with
    | .error e => (.error e, db)
    | .ok () =>
      let sender := db.account tx.multisigAddress
      if sender.nonce ≠ tx.nonce then
        (.error (.invalidNonce sender.nonce tx.nonce), db.touchAccount tx.multisigAddress)
      else (.ok (), db.updateAccount tx.multisigAddress (·.bumpNonce epoch))

/-! ### Validator keys -/

def rotationError (reason : String) : ExecutionError :=
  .contractError s!"RotateValidatorKey: {reason}"

/-- A missing account reads as nonce zero and is not created. -/
def executeRotateValidatorKey (verifyProofOfPossession : Bytes → Bytes → Bool)
    (rot : RotateValidatorKeyTx) (db : Ledger) : Handled Ledger :=
  let effectiveEpoch := rot.effectiveEpoch
  let keyLen := rot.newBlsPublicKey.length
  let validatorId := rot.validatorId
  let nonce := rot.nonce
  if effectiveEpoch < epoch then
    (.error (rotationError
      s!"effective_epoch {effectiveEpoch} is in the past (current {epoch})"), db)
  else if keyLen ≠ 48 then
    (.error (rotationError s!"new_bls_public_key must be 48 bytes (got {keyLen})"), db)
  else match db.stakes.lookup validatorId with
    | none =>
      (.error (rotationError s!"validator_id {validatorId} has no stake record"), db)
    | some stake =>
      let expectedNonce := (db.account rot.validatorAddress).nonce
      if stake.validatorAddress ≠ rot.validatorAddress then
        (.error (rotationError s!"validator_id {validatorId} address mismatch"), db)
      else if nonce ≠ expectedNonce then
        (.error (rotationError
          s!"nonce mismatch (expected {expectedNonce}, got {nonce})"), db)
      else if !verifyProofOfPossession rot.newBlsPublicKey rot.blsPopNew then
        (.error (rotationError "bls_pop_new failed verification"), db)
      else (.ok (), db.adjustAccount rot.validatorAddress (·.saturateNonce epoch))

end

end Simple

end EvaporChain
