import EvaporChain.Core.Dict
import EvaporChain.Execution.Types

/-!
# The state database

Access to single accounts of a database, and the ledgers the serial executors keep beside accounts
and objects: stakes, delegations, governance proposals and vesting schedules.
-/

namespace EvaporChain

open Core Function

/-! ### Decay and vesting -/

/-- Energy left after some epochs: halved once in every half-life, linear in between. -/
def energyAtEpoch (initial halfLife epochsElapsed : ℕ) : ℕ :=
  if halfLife = 0 then 0
  else
    let fullHalvings := epochsElapsed / halfLife
    if 64 ≤ fullHalvings then 0
    else
      let afterHalvings := initial / 2 ^ fullHalvings
      afterHalvings - afterHalvings * (epochsElapsed % halfLife) / (2 * halfLife)

/-- The part of a vested allocation that is still locked. -/
def VestingLock.lockedAt (lock : VestingLock) (currentEpoch : ℕ) : ℕ :=
  if currentEpoch ≤ lock.cliffEpoch then lock.totalLocked
  else
    let elapsed := currentEpoch - lock.cliffEpoch
    if lock.linearReleaseEpochs ≤ elapsed then 0
    else lock.totalLocked - lock.totalLocked * elapsed / lock.linearReleaseEpochs

/-- The part of a balance that may be spent. -/
def Account.transferableBalance (acct : Account) (currentEpoch : ℕ) : ℕ :=
  match acct.vesting with
  | none => acct.balance
  | some lock => acct.balance - lock.lockedAt currentEpoch

lemma Account.transferableBalance_le (acct : Account) (currentEpoch : ℕ) :
    acct.transferableBalance currentEpoch ≤ acct.balance := by
  unfold transferableBalance
  split
  · exact le_rfl
  · exact Nat.sub_le _ _

namespace Account

variable (acct : Account)

/-- Take from the balance. The epoch is the anchor of demurrage. -/
def debit (amount epoch : ℕ) : Account :=
  { acct with balance := acct.balance - amount, lastTouchedEpoch := epoch }

/-- Add to the balance. -/
def credit (amount epoch : ℕ) : Account :=
  { acct with balance := satAdd acct.balance amount, lastTouchedEpoch := epoch }

/-- Use up a nonce, in unchecked `u64` arithmetic. -/
def bumpNonce (epoch : ℕ) : Account :=
  { acct with nonce := (acct.nonce + 1) % 2 ^ 64, lastTouchedEpoch := epoch }

/-- Use up a nonce, stopping at the last. -/
def saturateNonce (epoch : ℕ) : Account :=
  { acct with nonce := satAdd acct.nonce 1, lastTouchedEpoch := epoch }

/-- Get a stake back, in unchecked `u64` arithmetic. -/
def claim (amount epoch : ℕ) : Account :=
  { acct.bumpNonce epoch with balance := (acct.balance + amount) % 2 ^ 64 }

def lockDeposit (bytes epoch : ℕ) : Account :=
  { acct with
    balance := acct.balance - minStorageDeposit
    storageDeposit := satAdd acct.storageDeposit minStorageDeposit
    storageBytes := satAdd acct.storageBytes bytes
    lastTouchedEpoch := epoch }

end Account

/-! ### Accounts of a database -/

namespace StateDb

variable (db : StateDb) (addr : AccountAddress)

/-- The account under an address; a missing one reads as empty. -/
def account : Account :=
  (db.accounts addr).getD (.empty addr)

/-- Create the account if it is missing, then change it. An account stays under its address. -/
def updateAccount (f : Account → Account) : StateDb :=
  db.putAccount { f (db.account addr) with address := addr }

/-- Change an account if there is one. -/
def adjustAccount (f : Account → Account) : StateDb :=
  if (db.accounts addr).isSome then db.updateAccount addr f else db

def deleteObject (id : ObjectId) : StateDb :=
  { db with
    objects := Function.update db.objects id none
    id_eq := by
      intro id' obj h
      by_cases hid : id' = id
      · subst hid
        rw [update_self] at h
        cases h
      · rw [update_of_ne hid] at h
        exact db.id_eq h }

def putGhost (ghost : GhostRecord) : StateDb :=
  { db with
    ghosts := Function.update db.ghosts ghost.objectId (some ghost)
    objectId_eq := by
      intro id ghost' h
      by_cases hid : id = ghost.objectId
      · subst hid
        rw [update_self] at h
        exact Option.some.inj h ▸ rfl
      · rw [update_of_ne hid] at h
        exact db.objectId_eq h }

@[simp] lemma address_account (addr : AccountAddress) : (db.account addr).address = addr := by
  unfold account
  cases h : db.accounts addr with
  | none => rfl
  | some acct => exact db.address_eq h

lemma account_of_some {db : StateDb} {addr : AccountAddress} {acct : Account}
    (h : db.accounts addr = some acct) : db.account addr = acct := by
  simp [account, h]

lemma account_of_none {db : StateDb} {addr : AccountAddress} (h : db.accounts addr = none) :
    db.account addr = .empty addr := by
  simp [account, h]

variable (db : StateDb)

lemma account_updateAccount (addr a : AccountAddress) (f : Account → Account) :
    (db.updateAccount addr f).account a =
      if a = addr then { f (db.account addr) with address := addr } else db.account a := by
  unfold updateAccount putAccount account
  by_cases ha : a = addr
  · simp [ha]
  · simp [ha]

variable (addr : AccountAddress) (f : Account → Account)

@[simp] lemma account_updateAccount_self :
    (db.updateAccount addr f).account addr = { f (db.account addr) with address := addr } := by
  rw [account_updateAccount, if_pos rfl]

lemma account_updateAccount_of_ne {addr a : AccountAddress} (h : a ≠ addr)
    (f : Account → Account) : (db.updateAccount addr f).account a = db.account a := by
  rw [account_updateAccount, if_neg h]

/-- An account that is missing reads as the one that is created. -/
@[simp] lemma account_updateAccount_id (addr a : AccountAddress) :
    (db.updateAccount addr id).account a = db.account a := by
  rw [account_updateAccount]
  split_ifs with h
  · subst h
    exact congrArg (fun addr => { db.account a with address := addr }) (address_account db a).symm
  · rfl

lemma accounts_updateAccount (addr a : AccountAddress) (f : Account → Account) :
    (db.updateAccount addr f).accounts a =
      if a = addr then some { f (db.account addr) with address := addr } else db.accounts a := by
  simp [updateAccount, putAccount, update_apply]

lemma isSome_accounts_updateAccount {a : AccountAddress} (h : (db.accounts a).isSome)
    (addr : AccountAddress) (f : Account → Account) :
    ((db.updateAccount addr f).accounts a).isSome := by
  rw [accounts_updateAccount]
  split_ifs
  · rfl
  · exact h

lemma account_adjustAccount (addr a : AccountAddress) (f : Account → Account) :
    (db.adjustAccount addr f).account a =
      if a = addr ∧ (db.accounts addr).isSome then { f (db.account addr) with address := addr }
      else db.account a := by
  unfold adjustAccount
  by_cases h : (db.accounts addr).isSome
  · simp [h, account_updateAccount]
  · simp [h]

@[simp] lemma isSome_accounts_adjustAccount (addr a : AccountAddress) (f : Account → Account) :
    ((db.adjustAccount addr f).accounts a).isSome = (db.accounts a).isSome := by
  unfold adjustAccount
  split_ifs with h
  · rw [accounts_updateAccount]
    split_ifs with ha
    · rw [ha, h, Option.isSome_some]
    · rfl
  · rfl

@[simp] lemma account_putObject (obj : StateObject) (a : AccountAddress) :
    (db.putObject obj).account a = db.account a := rfl

end StateDb

/-! ### Ledgers -/

structure StakeRecord where
  validatorId : ℕ
  validatorAddress : AccountAddress
  stakedAmount : ℕ
  stakedAtEpoch : ℕ
  unbondingEpoch : Option ℕ
  slashedAmount : ℕ
deriving DecidableEq

/-- What a validator gets back. -/
def StakeRecord.claimable (stake : StakeRecord) : ℕ := stake.stakedAmount - stake.slashedAmount

structure DelegationRecord where
  delegator : AccountAddress
  validatorId : ℕ
  amount : ℕ
  delegatedAtEpoch : ℕ
  unbondingAmount : ℕ
  unbondingEpoch : Option ℕ
deriving DecidableEq

variable (record : DelegationRecord)

def DelegationRecord.unbond (amount epoch : ℕ) : DelegationRecord :=
  { record with
    amount := record.amount - amount
    unbondingAmount := satAdd record.unbondingAmount amount
    unbondingEpoch := some epoch }

/-- Take out what was unbonding. -/
def DelegationRecord.release : DelegationRecord :=
  { record with unbondingAmount := 0, unbondingEpoch := none }

inductive ProposalStatus
  | pending
  | active
  | passed
  | rejected
  | executed
deriving DecidableEq

structure GovernanceProposal where
  proposalId : ℕ
  proposer : AccountAddress
  title : String
  paramKey : String
  paramValue : String
  startEpoch : ℕ
  endEpoch : ℕ
  votesFor : ℕ
  votesAgainst : ℕ
  status : ProposalStatus
  createdAt : ℕ
  /-- Distinct accounts. -/
  voters : List AccountAddress
deriving DecidableEq

/-- Linear release of an allocation after a cliff. -/
structure VestingSchedule where
  id : ℕ
  beneficiary : AccountAddress
  totalAmount : ℕ
  startEpoch : ℕ
  cliffEpochs : ℕ
  vestingEpochs : ℕ
  releasedAmount : ℕ
deriving DecidableEq

namespace VestingSchedule

variable (sched : VestingSchedule)

def vestedAt (currentEpoch : ℕ) : ℕ :=
  let cliffEnd := satAdd sched.startEpoch sched.cliffEpochs
  let vestingEnd := satAdd sched.startEpoch sched.vestingEpochs
  if currentEpoch < cliffEnd then 0
  else if vestingEnd ≤ currentEpoch then sched.totalAmount
  else if vestingEnd - cliffEnd = 0 then sched.totalAmount
  else min (sched.totalAmount * (currentEpoch - cliffEnd) / (vestingEnd - cliffEnd))
    sched.totalAmount

def pendingReleaseAt (currentEpoch : ℕ) : ℕ :=
  sched.vestedAt currentEpoch - sched.releasedAmount

def isFullyVested : Bool := sched.totalAmount ≤ sched.releasedAmount

end VestingSchedule

/-- The database of the serial executors. -/
structure Ledger extends StateDb where
  stakes : Dict ℕ StakeRecord
  delegations : Dict (AccountAddress × ℕ) DelegationRecord
  proposals : Dict ℕ GovernanceProposal
  governanceParams : Dict String String
  vestingSchedules : Dict ℕ VestingSchedule
  /-- Last epoch for which storage rent was collected. -/
  lastRentEpoch : ℕ
  stakes_keyed : stakes.KeyedBy StakeRecord.validatorId
  delegations_keyed : delegations.KeyedBy fun record => (record.delegator, record.validatorId)
  proposals_keyed : proposals.KeyedBy GovernanceProposal.proposalId

namespace Ledger

variable (db : Ledger)

def updateAccount (addr : AccountAddress) (f : Account → Account) : Ledger :=
  { db with toStateDb := db.toStateDb.updateAccount addr f }

def adjustAccount (addr : AccountAddress) (f : Account → Account) : Ledger :=
  { db with toStateDb := db.toStateDb.adjustAccount addr f }

/-- Create the account if it is missing. -/
def touchAccount (addr : AccountAddress) : Ledger := db.updateAccount addr id

def putObject (obj : StateObject) : Ledger :=
  { db with toStateDb := db.toStateDb.putObject obj }

def deleteObject (id : ObjectId) : Ledger :=
  { db with toStateDb := db.toStateDb.deleteObject id }

def putGhost (ghost : GhostRecord) : Ledger :=
  { db with toStateDb := db.toStateDb.putGhost ghost }

def removeGhost (id : ObjectId) : Ledger :=
  { db with toStateDb := db.toStateDb.removeGhost id }

def putStake (record : StakeRecord) : Ledger :=
  { db with
    stakes := db.stakes.insert record.validatorId record
    stakes_keyed := db.stakes_keyed.insert record }

def removeStake (validatorId : ℕ) : Ledger :=
  { db with
    stakes := db.stakes.erase validatorId
    stakes_keyed := db.stakes_keyed.erase validatorId }

def putDelegation (record : DelegationRecord) : Ledger :=
  { db with
    delegations := db.delegations.insert (record.delegator, record.validatorId) record
    delegations_keyed := db.delegations_keyed.insert record }

def removeDelegation (delegator : AccountAddress) (validatorId : ℕ) : Ledger :=
  { db with
    delegations := db.delegations.erase (delegator, validatorId)
    delegations_keyed := db.delegations_keyed.erase (delegator, validatorId) }

def putProposal (proposal : GovernanceProposal) : Ledger :=
  { db with
    proposals := db.proposals.insert proposal.proposalId proposal
    proposals_keyed := db.proposals_keyed.insert proposal }

section

variable (db : Ledger) (addr : AccountAddress) (f : Account → Account)

@[simp] lemma toStateDb_updateAccount :
    (db.updateAccount addr f).toStateDb = db.toStateDb.updateAccount addr f := rfl

@[simp] lemma toStateDb_adjustAccount :
    (db.adjustAccount addr f).toStateDb = db.toStateDb.adjustAccount addr f := rfl

@[simp] lemma toStateDb_putObject (obj : StateObject) :
    (db.putObject obj).toStateDb = db.toStateDb.putObject obj := rfl

@[simp] lemma toStateDb_putStake (record : StakeRecord) :
    (db.putStake record).toStateDb = db.toStateDb := rfl

@[simp] lemma toStateDb_removeStake (validatorId : ℕ) :
    (db.removeStake validatorId).toStateDb = db.toStateDb := rfl

@[simp] lemma toStateDb_putDelegation (record : DelegationRecord) :
    (db.putDelegation record).toStateDb = db.toStateDb := rfl

@[simp] lemma account_touchAccount (a : AccountAddress) :
    (db.touchAccount addr).account a = db.account a :=
  db.toStateDb.account_updateAccount_id addr a

end

end Ledger

end EvaporChain
