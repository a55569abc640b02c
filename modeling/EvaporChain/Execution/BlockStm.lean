import EvaporChain.Execution.TxView
import EvaporChain.Core.Serializable

/-!
# The Block-STM executor

All transactions run in a first wave; then, wave by wave, those that read outdated versions are
executed anew, some of them serially, until all reads are up to date. The results are collected in
block order up to the gas limit. The executor returns what serial execution returns, unless a
transaction reads a value that its writer, in the middle of flushing its buffer, is about to
overwrite: versions do not tell the two values apart.
-/

namespace EvaporChain

open Core

namespace BlockStm

/-- Materialized writes: balance, nonce and epoch of accounts, deposit and bytes of their storage,
objects and ghosts with `some none` for a deletion. -/
structure FinalWrites where
  accounts : AccountAddress → Option (ℕ × ℕ × ℕ)
  storage : AccountAddress → Option (ℕ × ℕ)
  objects : ObjectId → Option (Option StateObject)
  ghosts : ObjectId → Option (Option GhostRecord)

structure ParallelResult where
  txsExecuted : ℕ
  txsFailed : ℕ
  gasUsed : ℕ
  totalFees : ℕ
  finalWrites : FinalWrites
  txOutcomes : List TxOutcome

def ParallelResult.default : ParallelResult where
  txsExecuted := 0
  txsFailed := 0
  gasUsed := 0
  totalFees := 0
  finalWrites := ⟨fun _ => none, fun _ => none, fun _ => none, fun _ => none⟩
  txOutcomes := []

/-- Final writes from the highest version of each location; what a partial write of an account
leaves open comes from the base database. -/
def materializeFinalState (final : Location → Option ValuePayload) (db : StateDb) (epoch : ℕ) :
    FinalWrites where
  accounts addr :=
    let base := (db.accounts addr).elim (0, 0) fun a => (a.balance, a.nonce)
    match final (.accountBalance addr), final (.accountNonce addr) with
    | some (.balance bal), some (.nonce nonce) => some (bal, nonce, epoch)
    | some (.balance bal), _ => some (bal, base.2, epoch)
    | _, some (.nonce nonce) => some (base.1, nonce, epoch)
    | _, _ => none
  storage addr :=
    let base := (db.accounts addr).elim (0, 0) fun a => (a.storageDeposit, a.storageBytes)
    match final (.accountStorageDeposit addr), final (.accountStorageBytes addr) with
    | some (.storageDeposit d), some (.storageBytes b) => some (d, b)
    | some (.storageDeposit d), _ => some (d, base.2)
    | _, some (.storageBytes b) => some (base.1, b)
    | _, _ => none
  objects id :=
    match final (.object id) with
    | some (.object obj) => some (some obj)
    | some .objectDeleted => some none
    | _ => none
  ghosts id :=
    match final (.ghost id) with
    | some (.ghost record) => some (some record)
    | some .ghostRemoved => some none
    | _ => none

/-! ### Waves -/

structure WaveState where
  stm : Stm accepts TxExecResult
  abortCounts : ℕ → ℕ
  cumulativeAborts : ℕ
  blockSerialDrain : Bool

/-- A transaction aborted that often runs serially. -/
def maxAbortsBeforeSerial : ℕ := 3

/-- Cumulative aborts after which everything runs serially. -/
def blockAbortCeiling (numTxs : ℕ) : ℕ := satMul 2 numTxs

namespace WaveState

variable (txn : ℕ → Txn accepts TxExecResult) (numTxs : ℕ) (sched : ℕ → List ℕ) (w : WaveState)

/-- Transactions that read a version that is no longer the latest, in block order. -/
def needsReexec : List ℕ := (List.range numTxs).filter fun i => ¬ w.stm.Valid i

/-- The part of a wave before the parallel executions: count aborts, delete the writes of the
invalid transactions, execute those that aborted too often. -/
def serialPart : WaveState :=
  let needs := w.needsReexec numTxs
  let cumulativeAborts := satAdd w.cumulativeAborts needs.length
  let blockSerialDrain := w.blockSerialDrain || decide (blockAbortCeiling numTxs < cumulativeAborts)
  let abortCounts := fun i => if i ∈ needs then w.abortCounts i + 1 else w.abortCounts i
  let serial := needs.filter fun i =>
    blockSerialDrain || decide (maxAbortsBeforeSerial ≤ abortCounts i)
  { stm := w.stm.start txn needs serial
    abortCounts := abortCounts
    cumulativeAborts := cumulativeAborts
    blockSerialDrain := blockSerialDrain }

/-- One pass of the loop; when nothing is invalid the loop has ended. -/
def wave (k : ℕ) : WaveState :=
  if w.needsReexec numTxs = [] then w
  else
    let w := w.serialPart txn numTxs
    { w with stm := w.stm.phase numTxs (sched (k + 1)) }

/-- All transactions executed for the first time. -/
def first : WaveState where
  stm := (Stm.init txn).phase numTxs (sched 0)
  abortCounts _ := 0
  cumulativeAborts := 0
  blockSerialDrain := false

/-- Before pass `k` of the loop. -/
def before (k : ℕ) : WaveState :=
  (List.range k).foldl (wave txn numTxs sched) (first txn numTxs sched)

end WaveState

/-! ### Collecting the results -/

/-- A total over the limit; a total that overflows is over any limit, and 0 is no limit. -/
def overLimit (blockGasLimit total : ℕ) : Prop :=
  u64Max < total ∨ 0 < blockGasLimit ∧ blockGasLimit < total

instance (blockGasLimit total : ℕ) : Decidable (overLimit blockGasLimit total) :=
  inferInstanceAs (Decidable (_ ∨ _))

def overLimitOutcome (txHash : Hash) : TxOutcome :=
  ⟨txHash, false, some "block gas limit exceeded", 0⟩

structure Collected where
  stm : Stm accepts TxExecResult
  totalGas : ℕ
  totalFees : ℕ
  txsExecuted : ℕ
  txsFailed : ℕ
  gasExceededFrom : Option ℕ
  txOutcomes : List TxOutcome

def resultOf (s : Stm accepts TxExecResult) (i : ℕ) : Option TxExecResult :=
  match (s.task i).prog with
  | .ret (_, result) => some result
  | .read .. => none

namespace Collected

/-- Add the outcome of transaction `i` to the totals. -/
def step (blockGasLimit : ℕ) (txHash : ℕ → Hash) (c : Collected) (i : ℕ) : Collected :=
  if c.gasExceededFrom.isSome then
    { c with
      stm := c.stm.discard i
      txsFailed := c.txsFailed + 1
      txOutcomes := c.txOutcomes ++ [overLimitOutcome (txHash i)] }
  else match resultOf c.stm i with
    | some (.success gasUsed fee) =>
      if overLimit blockGasLimit (c.totalGas + gasUsed) then
        { c with
          stm := c.stm.discard i
          gasExceededFrom := some i
          txsFailed := c.txsFailed + 1
          txOutcomes := c.txOutcomes ++ [overLimitOutcome (txHash i)] }
      else
        { c with
          txsExecuted := c.txsExecuted + 1
          totalGas := satAdd c.totalGas gasUsed
          totalFees := satAdd c.totalFees fee
          txOutcomes := c.txOutcomes ++ [⟨txHash i, true, none, gasUsed⟩] }
    | some (.failed fee error) =>
      { c with
        txsFailed := c.txsFailed + 1
        totalFees := satAdd c.totalFees fee
        txOutcomes := c.txOutcomes ++ [⟨txHash i, false, error.or (some "execution failed"), 0⟩] }
    | none =>
      { c with
        txsFailed := c.txsFailed + 1
        txOutcomes := c.txOutcomes ++ [⟨txHash i, false, some "blocked / unknown", 0⟩] }

def start (stm : Stm accepts TxExecResult) : Collected := ⟨stm, 0, 0, 0, 0, none, []⟩

end Collected

section

variable (env : ExecEnv) (cfg : ExecConfig) (db : StateDb) (epoch : ℕ)

/-- The programs of a block; there is nothing to do beyond its end. -/
def programs (txs : List Transaction) (i : ℕ) : Txn accepts TxExecResult :=
  match txs[i]? with
  | some tx => txProgram env cfg db epoch tx
  | none => .ret ([], .failed 0 none)

/-- The parallel phase. `sched k` is the order of the single actions (reads and writes of the
memory) in the `k`-th wave; actions it leaves out follow in block order. -/
def executeParallel (txs : List Transaction) (blockGasLimit : ℕ) (sched : ℕ → List ℕ) :
    ParallelResult :=
  let numTxs := txs.length % 2 ^ 32
  if numTxs = 0 then .default
  else
    let txs := txs.take numTxs
    let maxWaves := (numTxs + 2) % 2 ^ 32
    let w := WaveState.before (programs env cfg db epoch txs) numTxs sched maxWaves
    let txHash := fun i => txs[i]?.elim Hash.zero (·.txHash env)
    let c := (List.range numTxs).foldl (Collected.step blockGasLimit txHash) (.start w.stm)
    { txsExecuted := c.txsExecuted
      txsFailed := c.txsFailed
      gasUsed := c.totalGas
      totalFees := c.totalFees
      finalWrites :=
        materializeFinalState (fun loc => (latest c.stm.mem loc numTxs).map Prod.snd) db epoch
      txOutcomes := c.txOutcomes }

/-! ### Serial execution -/

/-- Totals of a serial execution and the values written so far. -/
structure SerialState where
  view : Location → Option ValuePayload
  gasUsed : ℕ
  totalFees : ℕ
  txsExecuted : ℕ
  txsFailed : ℕ
  txOutcomes : List TxOutcome

/-- One transaction, on what the ones before it wrote, unless it takes the total over the limit. -/
def SerialState.next (blockGasLimit : ℕ) (s : SerialState) (tx : Transaction) :
    Option SerialState :=
  let (writes, result) := (txProgram env cfg db epoch tx).eval s.view
  let view := fun loc => (lastWrite writes loc).or (s.view loc)
  match result with
  | .success gasUsed fee =>
    if overLimit blockGasLimit (s.gasUsed + gasUsed) then none
    else some
      { view := view
        gasUsed := s.gasUsed + gasUsed
        totalFees := satAdd s.totalFees fee
        txsExecuted := s.txsExecuted + 1
        txsFailed := s.txsFailed
        txOutcomes := s.txOutcomes ++ [⟨tx.txHash env, true, none, gasUsed⟩] }
  | .failed fee error =>
    some
      { s with
        view := view
        totalFees := satAdd s.totalFees fee
        txsFailed := s.txsFailed + 1
        txOutcomes := s.txOutcomes ++
          [⟨tx.txHash env, false, error.or (some "execution failed"), 0⟩] }

/-- Execute the transactions one after the other. The first success that takes the total over the
limit and all that follows it contribute nothing. -/
def serialRun (blockGasLimit : ℕ) : SerialState → List Transaction → SerialState
  | s, [] => s
  | s, tx :: txs =>
    match s.next env cfg db epoch blockGasLimit tx with
    | some s' => serialRun blockGasLimit s' txs
    | none =>
      { s with
        txsFailed := s.txsFailed + (tx :: txs).length
        txOutcomes := s.txOutcomes ++ (tx :: txs).map fun tx => overLimitOutcome (tx.txHash env) }

def executeSerial (txs : List Transaction) (blockGasLimit : ℕ) : ParallelResult :=
  let s := serialRun env cfg db epoch blockGasLimit ⟨fun _ => none, 0, 0, 0, 0, []⟩ txs
  { txsExecuted := s.txsExecuted
    txsFailed := s.txsFailed
    gasUsed := s.gasUsed
    totalFees := s.totalFees
    finalWrites := materializeFinalState s.view db epoch
    txOutcomes := s.txOutcomes }

end

end BlockStm

end EvaporChain
