import EvaporChain.Execution.Effects

/-!
# Writes to the database

Most handlers and most phases of a block write only accounts, stakes, delegations and vesting
schedules. A sequence of such writes leaves alone every part of the database that none of these
belongs to, such as governance and the store of objects.
-/

namespace EvaporChain

open Core

variable {C S β : Type}

/-! ### Sequences of writes -/

/-- A sequence of writes in which accounts change as `A` says, and stakes if `staking`. -/
inductive Ledger.Writes (A : Account → Account → Prop) (staking : Bool) : Ledger → Ledger → Prop
  | refl (db : Ledger) : Writes A staking db db
  | trans {db db' db'' : Ledger} (h : Writes A staking db db') (h' : Writes A staking db' db'') :
    Writes A staking db db''
  | updateAccount (db : Ledger) (addr : AccountAddress) {f : Account → Account}
    (hf : A (db.account addr) { f (db.account addr) with address := addr }) :
    Writes A staking db (db.updateAccount addr f)
  | putStake (db : Ledger) (record : StakeRecord) (hstaking : staking = true) :
    Writes A staking db (db.putStake record)
  | removeStake (db : Ledger) (validatorId : ℕ) (hstaking : staking = true) :
    Writes A staking db (db.removeStake validatorId)
  | putDelegation (db : Ledger) (record : DelegationRecord) :
    Writes A staking db (db.putDelegation record)
  | removeDelegation (db : Ledger) (delegator : AccountAddress) (validatorId : ℕ) :
    Writes A staking db (db.removeDelegation delegator validatorId)
  | vestingSchedules (db : Ledger) (schedules : Dict ℕ VestingSchedule) :
    Writes A staking db { db with vestingSchedules := schedules }
  | lastRentEpoch (db : Ledger) (epoch : ℕ) :
    Writes A staking db { db with lastRentEpoch := epoch }

/-- A part of a database to which accounts, stakes, delegations and vesting do not belong. -/
structure Ledger.Apart (part : Ledger → β) : Prop where
  updateAccount : ∀ db addr f, part (db.updateAccount addr f) = part db
  putStake : ∀ db record, part (db.putStake record) = part db
  removeStake : ∀ db validatorId, part (db.removeStake validatorId) = part db
  putDelegation : ∀ db record, part (db.putDelegation record) = part db
  removeDelegation : ∀ db delegator validatorId,
    part (db.removeDelegation delegator validatorId) = part db
  vestingSchedules : ∀ (db : Ledger) schedules,
    part { db with vestingSchedules := schedules } = part db
  lastRentEpoch : ∀ (db : Ledger) epoch, part { db with lastRentEpoch := epoch } = part db

lemma Ledger.adjustAccount_cases (db : Ledger) (addr : AccountAddress) (f : Account → Account) :
    db.adjustAccount addr f = db.updateAccount addr f ∨ db.adjustAccount addr f = db := by
  unfold Ledger.adjustAccount StateDb.adjustAccount
  split_ifs
  · exact .inl rfl
  · exact .inr rfl

lemma Ledger.Apart.adjustAccount {part : Ledger → β} (h : Ledger.Apart part) (db : Ledger)
    (addr : AccountAddress) (f : Account → Account) : part (db.adjustAccount addr f) = part db := by
  rcases db.adjustAccount_cases addr f with hcase | hcase
  · rw [hcase, h.updateAccount]
  · rw [hcase]

namespace Ledger.Writes

variable {A B : Account → Account → Prop} {staking : Bool} {db db' : Ledger}

lemma adjustAccount (db : Ledger) (addr : AccountAddress) {f : Account → Account}
    (hf : A (db.account addr) { f (db.account addr) with address := addr }) :
    Writes A staking db (db.adjustAccount addr f) := by
  rcases db.adjustAccount_cases addr f with h | h
  · rw [h]
    exact .updateAccount db addr hf
  · rw [h]
    exact .refl db

lemma foldl {α : Type} {step : Ledger → α → Ledger} (h : ∀ db x, Writes A staking db (step db x))
    (xs : List α) (db : Ledger) : Writes A staking db (xs.foldl step db) := by
  induction xs generalizing db with
  | nil => exact .refl db
  | cons x xs ih => exact (h db x).trans (ih _)

lemma mono (h : Writes A staking db db') (hA : ∀ acct acct', A acct acct' → B acct acct') :
    Writes B staking db db' := by
  induction h with
  | refl => exact .refl _
  | trans _ _ ih ih' => exact ih.trans ih'
  | updateAccount db addr hf => exact .updateAccount db addr (hA _ _ hf)
  | putStake db record hstaking => exact .putStake db record hstaking
  | removeStake db validatorId hstaking => exact .removeStake db validatorId hstaking
  | putDelegation => exact .putDelegation ..
  | removeDelegation => exact .removeDelegation ..
  | vestingSchedules => exact .vestingSchedules ..
  | lastRentEpoch => exact .lastRentEpoch ..

lemma account (h : Writes A staking db db') (hrefl : ∀ acct, A acct acct)
    (htrans : ∀ x y z, A x y → A y z → A x z) (a : AccountAddress) :
    A (db.account a) (db'.account a) := by
  induction h with
  | trans _ _ ih ih' => exact htrans _ _ _ ih ih'
  | updateAccount db addr hf =>
    rw [Ledger.toStateDb_updateAccount, StateDb.account_updateAccount]
    split_ifs with ha
    · exact ha ▸ hf
    · exact hrefl _
  | _ => exact hrefl _

lemma stakes (h : Writes A false db db') : db'.stakes = db.stakes := by
  induction h with
  | trans _ _ ih ih' => exact ih'.trans ih
  | putStake _ _ hstaking | removeStake _ _ hstaking => cases hstaking
  | _ => rfl

lemma part_eq {part : Ledger → β} (h : Writes A staking db db') (hpart : Ledger.Apart part) :
    part db' = part db := by
  induction h with
  | refl => rfl
  | trans _ _ ih ih' => exact ih'.trans ih
  | updateAccount => exact hpart.updateAccount ..
  | putStake => exact hpart.putStake ..
  | removeStake => exact hpart.removeStake ..
  | putDelegation => exact hpart.putDelegation ..
  | removeDelegation => exact hpart.removeDelegation ..
  | vestingSchedules => exact hpart.vestingSchedules ..
  | lastRentEpoch => exact hpart.lastRentEpoch ..

end Ledger.Writes

/-! ### Evaporation -/

/-- A part of a database that the sweep over the objects leaves alone. -/
structure Ledger.Unswept (part : Ledger → β) : Prop where
  storageBytes : ∀ db addr bytes, part (db.updateAccount addr fun acct =>
    { acct with storageBytes := acct.storageBytes - bytes }) = part db
  putObject : ∀ db obj, part (db.putObject obj) = part db
  deleteObject : ∀ db id, part (db.deleteObject id) = part db
  putGhost : ∀ db ghost, part (db.putGhost ghost) = part db

namespace EvaporationResult

variable {env : ChainEnv C S} {part : Ledger → β} (hpart : Ledger.Unswept part)
include hpart

lemma part_evaporateObject (epoch : ℕ) (obj : StateObject) (r : EvaporationResult) :
    part (r.evaporateObject env epoch obj).db = part r.db := by
  refine (hpart.putGhost ..).trans ((hpart.deleteObject ..).trans ?_)
  rcases r.db.adjustAccount_cases obj.owner fun acct =>
    { acct with storageBytes := acct.storageBytes - obj.data.length } with h | h
  · exact (congrArg part h).trans (hpart.storageBytes ..)
  · exact congrArg part h

lemma part_step (gracePeriod epoch : ℕ) (r : EvaporationResult) (id : ObjectId) :
    part (r.step env gracePeriod epoch id).db = part r.db := by
  unfold step
  split
  · rfl
  · split
    · rfl
    · dsimp only
      split_ifs
      · exact (part_evaporateObject hpart ..).trans (hpart.putObject ..)
      · exact hpart.putObject ..
    all_goals
      split_ifs
      · exact hpart.putObject ..
      · rfl

end EvaporationResult

lemma part_processEvaporation (env : ChainEnv C S) {part : Ledger → β} (hpart : Ledger.Unswept part)
    (gracePeriod epoch : ℕ) (objectIds : List ObjectId) (st : ChainState C S) :
    part (processEvaporation env gracePeriod epoch objectIds st).db = part st.db :=
  foldl_keeps _ (g := fun r : EvaporationResult => part r.db)
    (EvaporationResult.part_step hpart gracePeriod epoch) _ _

lemma db_entomb (st : ChainState C S) (key : Hash) : (st.entomb key).db = st.db := by
  unfold ChainState.entomb
  split <;> rfl

end EvaporChain
