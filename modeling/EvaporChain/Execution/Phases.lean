import EvaporChain.Execution.Executor

/-!
# The end of a block

What executors do after the transactions: evaporation, storage rent, demurrage and rewards.
-/

namespace EvaporChain

open Core

variable {C S : Type} (env : ChainEnv C S)

/-! ### Evaporation -/

structure EvaporationResult where
  db : Ledger
  mmrSize : ℕ
  enteredGrace : List ObjectId
  evaporated : List ObjectId

namespace EvaporationResult

/-- Replace an object by its ghost. The owner no longer pays for its data. -/
def evaporateObject (epoch : ℕ) (obj : StateObject) (r : EvaporationResult) : EvaporationResult :=
  let db := r.db.adjustAccount obj.owner fun acct =>
    { acct with storageBytes := acct.storageBytes - obj.data.length }
  { r with
    db := (db.deleteObject obj.id).putGhost
      { objectId := obj.id, owner := obj.owner, evaporatedAt := epoch
        dataHash := env.blake3 obj.data, originalData := some obj.data
        mmrPosition := some r.mmrSize, originalHalfLife := some obj.halfLife }
    mmrSize := r.mmrSize + 1
    evaporated := r.evaporated ++ [obj.id] }

/-- Energy left in an object, by its own curve if it has one. -/
def energyOf (epoch : ℕ) (obj : StateObject) : ℕ :=
  let elapsed := epoch - obj.lastRefreshed
  match obj.decayCurve with
  | some curve => env.computeEnergy curve obj.energy elapsed obj.lastRefreshed
  | none => energyAtEpoch obj.energy obj.halfLife elapsed

/-- Active objects without energy enter grace; those whose grace is over evaporate. -/
def step (gracePeriod epoch : ℕ) (r : EvaporationResult) (id : ObjectId) : EvaporationResult :=
  match r.db.objects id with
  | none => r
  | some obj =>
    match obj.state with
    | .ghost => r
    | .grace =>
      let graceStart := obj.graceEpoch.getD epoch
      let r := { r with db := r.db.putObject { obj with graceEpoch := some graceStart } }
      if (graceStart + gracePeriod) % 2 ^ 64 ≤ epoch then r.evaporateObject env epoch obj else r
    | .active | .resurrected =>
      if energyOf env epoch obj = 0 then
        { r with
          db := r.db.putObject
            { obj with state := .grace, graceEpoch := some epoch, energy := 0 }
          enteredGrace := r.enteredGrace ++ [id] }
      else r

end EvaporationResult

/-- Most objects looked at in a block. -/
def maxScanPerEpoch : ℕ := 50000

def processEvaporation (gracePeriod epoch : ℕ) (objectIds : List ObjectId)
    (st : ChainState C S) : EvaporationResult :=
  (objectIds.take maxScanPerEpoch).foldl (EvaporationResult.step env gracePeriod epoch)
    ⟨st.db, st.mmrSize, [], []⟩

/-! ### Rent and demurrage -/

namespace ChainState

/-- Put a tombstone, unless there is one. -/
def entomb (st : ChainState C S) (key : Hash) : ChainState C S :=
  if key ∈ st.eulogyTrie then st else { st with eulogyTrie := key :: st.eulogyTrie }

/-- Charge an account for its stored bytes. One that cannot pay is wiped and gets a tombstone. -/
def rentStep (st : ChainState C S) (addr : AccountAddress) : ChainState C S :=
  match st.db.accounts addr with
  | none => st
  | some acct =>
    let rent := satMul acct.storageBytes 1
    if acct.storageBytes = 0 then st
    else if rent ≤ acct.balance then
      { st with
        db := st.db.updateAccount addr fun acct => { acct with balance := acct.balance - rent }
        refreshPool := st.refreshPool.accrue systemRefreshNamespace rent }
    else
      { st with
        db := st.db.updateAccount addr fun acct =>
          { acct with balance := 0, storageDeposit := 0, storageBytes := 0 }
        refreshPool := st.refreshPool.accrue systemRefreshNamespace acct.balance }.entomb addr

/-- Charge an idle balance since the later of its anchor and the last sweep. -/
def demurrageStep (lastEpoch epoch : ℕ) (st : ChainState C S) (addr : AccountAddress) :
    ChainState C S :=
  match st.db.accounts addr with
  | none => st
  | some acct =>
    let owed := env.demurrageOwed acct.balance (max acct.lastTouchedEpoch lastEpoch) epoch
    let actual := min owed acct.balance
    if actual = 0 then st
    else
      { st with
        db := st.db.updateAccount addr (·.debit actual epoch)
        refreshPool := st.refreshPool.accrue addr.toList actual }

def collectRent (epoch : ℕ) (addresses : List AccountAddress) (st : ChainState C S) :
    ChainState C S :=
  let lastRentEpoch := st.db.lastRentEpoch
  if epoch ≤ lastRentEpoch then st
  else
    let st := addresses.foldl rentStep st
    let st := addresses.foldl (demurrageStep env lastRentEpoch epoch) st
    { st with db := { st.db with lastRentEpoch := epoch } }

end ChainState

/-! ### Tokenomics -/

namespace Tokenomics

variable (t : Tokenomics)

def rewardAtEpoch (epoch : ℕ) : ℕ :=
  if t.baseReward = 0 ∨ t.rewardHalfLife = 0 then t.baseReward
  else energyAtEpoch t.baseReward t.rewardHalfLife epoch

def rewardAtEpochCapped (epoch totalMinted : ℕ) : ℕ :=
  match t.maxSupplyCap with
  | none => t.rewardAtEpoch epoch
  | some cap => min (t.rewardAtEpoch epoch) (cap - totalMinted)

def blockReward (epoch totalMinted : ℕ) : ℕ :=
  match t.emission with
  | some schedule => schedule epoch totalMinted
  | none => t.rewardAtEpochCapped epoch totalMinted

def apyCappedReward (rawReward totalStaked : ℕ) : ℕ :=
  if totalStaked = 0 then rawReward
  else match t.apyBudget totalStaked with
    | none => rawReward
    | some budget => min rawReward (max budget 1)

/-- Scale the base reward as the cap on the yield scales the reward of the epoch. -/
def capped (epoch totalMinted totalStaked : ℕ) : Tokenomics :=
  let raw := t.blockReward epoch totalMinted
  if t.emission.isNone ∧ 0 < raw then
    { t with baseReward := satMul (t.apyCappedReward raw totalStaked) t.baseReward / raw }
  else t

def distributeFees (totalFees : ℕ) : FeeDistribution :=
  let burned := t.burnShare totalFees
  let remaining := totalFees - burned
  let toStakers := t.stakerShare remaining
  { burned := burned, toProducer := remaining - toStakers, toStakers := toStakers }

def commission (stakerPool : ℕ) : ℕ :=
  min (t.commissionShare stakerPool) stakerPool

end Tokenomics

/-! ### Rewards -/

def deadProducerRefreshNamespace : Bytes := asciiBytes "evaporchain-dead-producer-refresh"

def baseInclusionEnergy : ℕ := 1000000

/-- Who gets the rewards of a block. -/
structure Producer where
  addr : AccountAddress
  epoch : ℕ
  /-- Without a tombstone. -/
  alive : Bool

namespace ChainState

variable (st : ChainState C S)

def credit (addr : AccountAddress) (amount epoch : ℕ) : ChainState C S :=
  if amount = 0 then st else { st with db := st.db.updateAccount addr (·.credit amount epoch) }

/-- Pay a producer; what a dead one would get goes to the refresh pool. -/
def creditProducer (p : Producer) (amount : ℕ) : ChainState C S :=
  if p.alive then st.credit p.addr amount p.epoch
  else { st with refreshPool := st.refreshPool.accrue deadProducerRefreshNamespace amount }

def creditAll (epoch : ℕ) (shares : List (AccountAddress × ℕ)) : ChainState C S :=
  shares.foldl (fun st share => st.credit share.1 share.2 epoch) st

end ChainState

/-- Equal shares; what does not divide goes to the first. -/
def attesterShares (total : ℕ) : List AccountAddress → List (AccountAddress × ℕ)
  | [] => []
  | first :: rest =>
    let n := rest.length + 1
    (first, total / n + (total - total / n * n)) :: rest.map fun att => (att, total / n)

/-- The part of a block reward for the proposer; there are attesters to share with, or not. -/
def proposerShare (blockReward : ℕ) (attesters : List AccountAddress) : ℕ :=
  if attesters = [] then blockReward else blockReward * 60 % 2 ^ 64 / 100

namespace RewardAccumulator

variable (ra : RewardAccumulator) (p : Producer)

def mint (blockReward : ℕ) (attesters : List AccountAddress)
    (st : ChainState C S) : RewardAccumulator × ChainState C S :=
  let share := proposerShare blockReward attesters
  ({ ra with totalMinted := satAdd ra.totalMinted blockReward },
    (st.creditProducer p share).creditAll p.epoch
      (attesterShares (blockReward - share) attesters))

/-- Burn, pay or put aside the fees of a block. -/
def splitFees (totalFees : ℕ) (st : ChainState C S) : RewardAccumulator × ChainState C S :=
  let dist := ra.tokenomics.distributeFees totalFees
  let commission := ra.tokenomics.commission dist.toStakers
  let netStaker := dist.toStakers - commission
  ({ ra with
      totalBurned := satAdd ra.totalBurned dist.burned
      totalToProducers := satAdd (satAdd ra.totalToProducers dist.toProducer) commission
      pendingStakerRewards := satAdd ra.pendingStakerRewards netStaker
      totalToStakers := satAdd ra.totalToStakers netStaker },
    (st.creditProducer p dist.toProducer).creditProducer p commission)

def processBlockRewardsV2 (totalFees : ℕ) (attesters : List AccountAddress)
    (totalStaked : ℕ) (st : ChainState C S) : RewardAccumulator × ChainState C S :=
  let tokenomics := ra.tokenomics.capped p.epoch ra.totalMinted totalStaked
  let (ra, st) := ra.mint p (tokenomics.blockReward p.epoch ra.totalMinted) attesters st
  if totalFees = 0 then (ra, st) else ra.splitFees p totalFees st

/-- Mint for transactions that were included fresh. -/
def applyPriorityBonus (prioritySum : ℕ)
    (st : ChainState C S) : RewardAccumulator × ChainState C S :=
  let bonus := prioritySum / baseInclusionEnergy
  ({ ra with totalMinted := satAdd ra.totalMinted bonus }, st.creditProducer p bonus)

def stakerShares (pool totalStake : ℕ) (stakers : List (AccountAddress × ℕ)) :
    List (AccountAddress × ℕ) :=
  stakers.map fun staker => (staker.1, pool * staker.2 / totalStake % 2 ^ 64)

/-- One unit each of what rounding left, to the highest stakes first. -/
def dustShares (remainder : ℕ) (stakers : List (AccountAddress × ℕ)) : List (AccountAddress × ℕ) :=
  ((stakers.mergeSort fun a b => b.2 ≤ a.2).take remainder).map fun staker => (staker.1, 1)

def distributeStakerRewards (ra : RewardAccumulator) (stakers : List (AccountAddress × ℕ))
    (epoch : ℕ) (st : ChainState C S) : RewardAccumulator × ChainState C S :=
  let pool := ra.pendingStakerRewards
  let totalStake := satSum (stakers.map Prod.snd)
  if pool = 0 ∨ totalStake = 0 then (ra, st)
  else
    let shares := stakerShares pool totalStake stakers
    let distributed := satSum (shares.map Prod.snd)
    let dust := dustShares (pool - distributed) stakers
    ({ ra with pendingStakerRewards := pool - satAdd distributed dust.length },
      (st.creditAll epoch shares).creditAll epoch dust)

end RewardAccumulator

variable (db : Ledger)

/-- The account of a producer; one without a stake record gets its number as an address. -/
def producerAddr : Option ℕ → AccountAddress
  | none => Hash.zero
  | some pid =>
    match db.stakes.lookup pid with
    | some stake => stake.validatorAddress
    | none => ⟨leBytes 8 pid ++ List.replicate 24 0, by simp⟩

def Ledger.allStakes : List StakeRecord := db.stakes.entries.map (·.2)

/-- Accounts of the signers of a block that have a stake record. -/
def attestersOf (signers : List ℕ) : List AccountAddress :=
  signers.filterMap fun vid =>
    ((db.allStakes.find? (·.validatorId = vid)).map (·.validatorAddress))

def activeStakers : List (AccountAddress × ℕ) :=
  (db.allStakes.filter (·.unbondingEpoch = none)).map fun s => (s.validatorAddress, s.stakedAmount)

/-- Freshness of the transactions of a block, summed up. -/
def prioritySum (block : ExecBlock) : ℕ :=
  satSum ((block.submitEpochHints.filterMap id).map fun submit =>
    energyAtEpoch baseInclusionEnergy 4 (block.number - submit))

def producerOf (block : ExecBlock) (st : ChainState C S) : Producer :=
  let addr := producerAddr st.db block.producerId
  { addr := addr, epoch := block.epoch, alive := addr ∉ st.eulogyTrie }

/-- Pay the stakers every hundred blocks. -/
def RewardAccumulator.payStakers (ra : RewardAccumulator) (block : ExecBlock)
    (st : ChainState C S) : RewardAccumulator × ChainState C S :=
  if block.number % 100 = 0 then ra.distributeStakerRewards (activeStakers st.db) block.epoch st
  else (ra, st)

def distributeRewards (block : ExecBlock) (totalFees : ℕ) (st : ChainState C S) : ChainState C S :=
  match st.rewardAccumulator with
  | none => st
  | some ra =>
    let p := producerOf block st
    let r := ra.processBlockRewardsV2 p totalFees (attestersOf st.db block.commitSigners)
      (satSum ((activeStakers st.db).map Prod.snd)) st
    let r := r.1.applyPriorityBonus p (prioritySum block) r.2
    let r := r.1.payStakers block r.2
    { r.2 with rewardAccumulator := some r.1 }

end EvaporChain
