import EvaporChain.Execution.Ledger

/-!
# Deferred transactions and energy watchers

Transactions that wait in a queue until their temporal guards hold, and watchers that call a
contract once the energy of an object crosses a threshold.
-/

namespace EvaporChain

open Core

namespace Temporal

/-! ### The queue -/

inductive TemporalError
  | insufficientDeposit (needed got : ℕ)
  | noGuards
  | emptyInnerTx
  | queueFull (max : ℕ)

def TemporalError.toString : TemporalError → String
  | .insufficientDeposit needed got =>
    s!"deferred tx deposit too low: need {needed}, got {got}"
  | .noGuards      => "deferred tx has no guards"
  | .emptyInnerTx  => "deferred tx has no inner transaction"
  | .queueFull max => s!"too many deferred txs in queue (max {max})"

def minDeferredDeposit : ℕ := 10000

def maxQueueSize : ℕ := 10000

/-- Kept back from a deposit on submission. -/
def queueStorageFee : ℕ := 1000

structure DeferredEntry where
  tx : DeferredTx
  /-- First epoch in which the transaction may fire. -/
  earliestEpoch : ℕ
  /-- Epoch from which on it has expired. -/
  expiryEpoch : ℕ
  remainingDeposit : ℕ
  seq : ℕ
deriving DecidableEq

/-- The order in which entries leave the heap. -/
def DeferredEntry.Before (a b : DeferredEntry) : Prop :=
  a.earliestEpoch < b.earliestEpoch ∨ a.earliestEpoch = b.earliestEpoch ∧ a.seq ≤ b.seq

instance : DecidableRel DeferredEntry.Before := fun _ _ =>
  inferInstanceAs (Decidable (_ ∨ _ ∧ _))

instance : Std.Total DeferredEntry.Before where
  total a b := by
    unfold DeferredEntry.Before
    omega

instance : IsTrans DeferredEntry DeferredEntry.Before where
  trans a b c := by
    unfold DeferredEntry.Before
    omega

/-- The heap of waiting transactions, as the list of its entries in the order they are popped. -/
structure DeferredQueue where
  queue : List DeferredEntry
  nextSeq : ℕ
  sorted : queue.Pairwise DeferredEntry.Before

/-- The queue of a fresh executor. -/
def DeferredQueue.new : DeferredQueue where
  queue := []
  nextSeq := 0
  sorted := .nil

variable (guards : List TemporalGuard)

/-- The latest epoch that an `afterEpoch` guard asks for. -/
def earliestOf : ℕ :=
  guards.foldl (fun earliest guard =>
    match guard with
    | .afterEpoch e => if earliest < e then e else earliest
    | _ => earliest) 0

/-- The first epoch that a `beforeEpoch` guard excludes. -/
def expiryOf : ℕ :=
  guards.foldl (fun expiry guard =>
    match guard with
    | .beforeEpoch e => if e < expiry then e else expiry
    | _ => expiry) u64Max

namespace DeferredQueue

/-- The entry a submission adds. -/
def entryOf (q : DeferredQueue) (tx : DeferredTx) : DeferredEntry where
  tx := tx
  earliestEpoch := earliestOf tx.guards
  expiryEpoch := expiryOf tx.guards
  remainingDeposit := tx.deposit - queueStorageFee
  seq := q.nextSeq

def submit (q : DeferredQueue) (tx : DeferredTx) : Except TemporalError DeferredQueue :=
  if tx.guards = [] then .error .noGuards
  else if tx.innerTxBytes = [] then .error .emptyInnerTx
  else if tx.deposit < minDeferredDeposit then
    .error (.insufficientDeposit minDeferredDeposit tx.deposit)
  else if maxQueueSize ≤ q.queue.length then .error (.queueFull maxQueueSize)
  else
    .ok
      { queue := q.queue.orderedInsert DeferredEntry.Before (q.entryOf tx)
        nextSeq := (q.nextSeq + 1) % 2 ^ 64
        sorted := q.sorted.orderedInsert _ _ }

end DeferredQueue

/-! ### Guards -/

section

variable (epoch : ℕ) (db : StateDb)

/-- Energy of an object in an epoch, by its half-life alone. -/
def currentEnergy (obj : StateObject) : ℕ :=
  energyAtEpoch obj.energy obj.halfLife (epoch - obj.lastRefreshed)

variable (phaseOf : ℕ → Option String)

/-- Whether a guard holds; `phaseOf` is the phase a contract is in, if it has phases. -/
def evaluateGuard : TemporalGuard → Bool
  | .afterEpoch e => e ≤ epoch
  | .beforeEpoch e => epoch < e
  | .energyBelow id threshold =>
    match db.objects id with
    | some obj => currentEnergy epoch obj < threshold
    | none => true
  | .energyAbove id threshold =>
    match db.objects id with
    | some obj => threshold < currentEnergy epoch obj
    | none => false
  | .objectEvaporated id =>
    match db.objects id with
    | some obj => obj.state = .ghost
    | none => true
  | .contractInPhase id expected => phaseOf id = some expected

def evaluateGuards (guards : List TemporalGuard) : Bool :=
  guards.all (evaluateGuard epoch db phaseOf)

/-- What an epoch makes of an entry. -/
inductive Fate
  | expired
  | matured
  | pending
deriving DecidableEq

/-- Expiry is looked at first, then the earliest epoch, then the guards. -/
def DeferredEntry.fate (entry : DeferredEntry) : Fate :=
  if entry.expiryEpoch ≤ epoch then .expired
  else if epoch < entry.earliestEpoch then .pending
  else if evaluateGuards epoch db phaseOf entry.tx.guards then .matured
  else .pending

structure DeferredQueueResult where
  /-- Submitter, inner transaction and gas limit. -/
  maturedTxs : List (AccountAddress × Bytes × ℕ)
  refunds : List (AccountAddress × ℕ)

namespace DeferredQueue

def withFate (q : DeferredQueue) (fate : Fate) : List DeferredEntry :=
  q.queue.filter (·.fate epoch db phaseOf = fate)

def processEpoch (q : DeferredQueue) : DeferredQueueResult × DeferredQueue :=
  ({ maturedTxs := (q.withFate epoch db phaseOf .matured).map fun entry =>
        (entry.tx.submitter, entry.tx.innerTxBytes, entry.tx.gasLimit)
     refunds := (q.withFate epoch db phaseOf .expired).map fun entry =>
        (entry.tx.submitter, entry.remainingDeposit) },
   { queue := q.withFate epoch db phaseOf .pending
     nextSeq := q.nextSeq
     sorted := q.sorted.filter _ })

end DeferredQueue

end

/-! ### Watchers -/

structure EnergyWatcher where
  objectId : ObjectId
  threshold : ℕ
  fireBelow : Bool
  callbackContractId : ℕ
  callbackMethod : String
  callbackArgs : String
deriving DecidableEq

/-- Whether a watcher fires; a missing object has no energy. -/
def EnergyWatcher.shouldFire (epoch : ℕ) (db : StateDb) (watcher : EnergyWatcher) : Bool :=
  let energy := ((db.objects watcher.objectId).map (currentEnergy epoch)).getD 0
  if watcher.fireBelow then energy < watcher.threshold else watcher.threshold < energy

/-- The callbacks of the watchers that fire, and the watchers that stay. -/
def processWatchers (epoch : ℕ) (db : StateDb) (watchers : List EnergyWatcher) :
    List (ℕ × String × String) × List EnergyWatcher :=
  (((watchers.filter (·.shouldFire epoch db)).map fun w =>
      (w.callbackContractId, w.callbackMethod, w.callbackArgs)),
   watchers.filter (!·.shouldFire epoch db))

end Temporal

end EvaporChain
