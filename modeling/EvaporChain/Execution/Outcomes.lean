import EvaporChain.Execution.ParallelEffects

/-!
# What the executors report

Every transaction of a block has one outcome, at its position, unless the block is lost.
-/

namespace EvaporChain

open Core Parallel List

/-! ### Outcomes in block order -/

def Reports (env : ExecEnv) (x : ℕ × Transaction) (y : ℕ × TxOutcome) : Prop :=
  y.1 = x.1 ∧ y.2.txHash = x.2.txHash env

def Billed (gas : ℕ) (outcome : TxOutcome) : Prop :=
  outcome.success = true → outcome.gasUsed = gas

def ReportsAll (env : ExecEnv) (txs : List Transaction) (outcomes : List TxOutcome) : Prop :=
  List.Forall₂ (fun tx outcome => outcome.txHash = tx.txHash env) txs outcomes

namespace Parallel

variable (txs : List Transaction)

lemma map_fst_enumerate :
    (enumerate txs).map Prod.fst = List.range txs.length := by
  simp [enumerate, Function.comp_def, List.range_eq_range']

lemma map_snd_enumerate : (enumerate txs).map Prod.snd = txs := by
  simp [enumerate, Function.comp_def]

lemma pairwise_fst_enumerate :
    ((enumerate txs).map Prod.fst).Pairwise (· < ·) := by
  rw [map_fst_enumerate]
  exact pairwise_lt_range

end Parallel

variable {xs : List (ℕ × Transaction)}

/-- Outcomes collected in any order are reported in block order. -/
lemma reportsAll_insertionSort {env : ExecEnv} {txs : List Transaction}
    {ys : List (ℕ × TxOutcome)} (hperm : (enumerate txs).Perm xs)
    (hreports : List.Forall₂ (Reports env) xs ys) :
    ReportsAll env txs ((ys.insertionSort fun a b => a.1 ≤ b.1).map Prod.snd) := by
  obtain ⟨zs, hzs, hzsperm⟩ := perm_comp_forall₂ hperm hreports
  have hfst : zs.map Prod.fst = (enumerate txs).map Prod.fst := by
    refine forall₂_eq_eq_eq ▸ ?_
    rw [forall₂_map_left_iff, forall₂_map_right_iff]
    exact hzs.flip.imp fun _ _ h => h.1
  rw [insertionSort_eq_of_perm hzsperm.symm (hfst ▸ pairwise_fst_enumerate txs)]
  unfold ReportsAll
  rw [← map_snd_enumerate txs, forall₂_map_left_iff, forall₂_map_right_iff]
  exact hzs.imp fun _ _ h => h.2

namespace Parallel

/-! ### Partitions -/

section

variable {env : ExecEnv} {cfg : ExecConfig} {epoch : ℕ}

lemma partition_reports {r : PartitionResult} {x : ℕ × Transaction}
    (hserial : isSerial x.2 = false) :
    ∃ y, (r.step env cfg epoch x).txOutcomes = r.txOutcomes ++ [y] ∧
      Reports env x y ∧ Billed (estimateGas x.2) y.2 := by
  generalize hstep : r.step env cfg epoch x = r'
  have hrun := stepRun_step env cfg epoch r hserial
  rw [hstep] at hrun
  cases hrun <;> exact ⟨_, rfl, ⟨rfl, rfl⟩, by simp [Billed]⟩

lemma reports_executePartition {group : List (ℕ × Transaction)} {overlay : Overlay} {budget : ℕ}
    (hserial : ∀ x ∈ group, isSerial x.2 = false) :
    List.Forall₂ (fun x y => Reports env x y ∧ Billed (estimateGas x.2) y.2) group
      (executePartition env cfg epoch group overlay budget).txOutcomes := by
  obtain ⟨os, hos, hall⟩ := run_log (PartitionResult.step env cfg epoch)
    PartitionResult.txOutcomes (G := fun _ x => isSerial x.2 = false)
    (fun r x hx => partition_reports hx) ⟨overlay, 0, 0, 0, 0, [], budget⟩ group
    fun x hx => hserial x.2 (snd_mem_of_mem_trace _ hx)
  have hlog : (executePartition env cfg epoch group overlay budget).txOutcomes = os := hos
  rwa [hlog]

end

/-! ### The partitions of a block -/

lemma filterMap_enumerate :
    (enumerate (xs.map Prod.snd)).filterMap (fun x => xs[x.1]?) = xs := by
  have hcomp : (fun x : ℕ × Transaction => xs[x.1]?) = (fun i => xs[i]?) ∘ Prod.fst := rfl
  rw [hcomp, ← filterMap_map, map_fst_enumerate, length_map]
  clear hcomp
  induction xs with
  | nil => rfl
  | cons x xs ih =>
    rw [length_cons, range_succ_eq_map, filterMap_cons, filterMap_map]
    exact congrArg (x :: ·) ih

/-- The partitions hold the parallel transactions. -/
lemma flatten_partitions_perm (txs : List Transaction) :
    (partitions txs).flatten.Perm (parallelTxs txs) := by
  have hgroups := flatten_groupByRoot_perm
    (connect ((enumerate ((parallelTxs txs).map Prod.snd)).map fun x =>
      (x.1, extractAccessKeys x.2))) (enumerate ((parallelTxs txs).map Prod.snd))
  have hfilter := hgroups.filterMap fun x => (parallelTxs txs)[x.1]?
  rw [filterMap_enumerate, filterMap_flatten] at hfilter
  exact hfilter

lemma isSerial_of_mem_partitions {txs : List Transaction} {group : List (ℕ × Transaction)}
    (hgroup : group ∈ partitions txs) : ∀ x ∈ group, isSerial x.2 = false := by
  intro x hx
  have hmem := (flatten_partitions_perm txs).mem_iff.mp (mem_flatten_of_mem hgroup hx)
  simpa using (List.mem_filter.mp hmem).2

/-- Every transaction is either in a partition or serial. -/
lemma enumerate_perm (txs : List Transaction) :
    (enumerate txs).Perm ((partitions txs).flatten ++ serialTxs txs) := by
  have hsplit := filter_append_perm (fun x => !isSerial x.2) (enumerate txs)
  simp only [Bool.not_not] at hsplit
  exact hsplit.symm.trans ((flatten_partitions_perm txs).symm.append_right _)

/-! ### Blocks of the parallel executor -/

variable {C S : Type} {env : ChainEnv C S} {cfg : ExecConfig} {epoch : ℕ}

lemma merge_foldl (ps : List PartitionResult) (r : Progress C S) :
    (ps.foldl Progress.merge r).indexedOutcomes =
        r.indexedOutcomes ++ (ps.map PartitionResult.txOutcomes).flatten ∧
      (ps.foldl Progress.merge r).st.blockGasLimit = r.st.blockGasLimit ∧
      (ps.foldl Progress.merge r).validatorKeyRotations = r.validatorKeyRotations := by
  induction ps generalizing r with
  | nil => simp
  | cons p ps ih =>
    obtain ⟨hos, hlimit, hrot⟩ := ih (r.merge p)
    refine ⟨?_, hlimit, hrot⟩
    rw [foldl_cons, hos, Progress.merge]
    simp

variable {phase : SerialPhase C S}

lemma serial_reports {r r' : Progress C S} {x : ℕ × Transaction}
    (h : r.step env phase cfg epoch x = .ok r') :
    ∃ y, r'.indexedOutcomes = r.indexedOutcomes ++ [y] ∧
      Reports env.toExecEnv x y ∧ Billed (phase.estimateGas x.2) y.2 := by
  have hrun := serialRun_step env cfg epoch phase r x
  rw [h] at hrun
  cases hrun <;> exact ⟨_, rfl, ⟨rfl, rfl⟩, by simp [Billed]⟩

/-- The serial phase adds an outcome for each of its transactions. -/
lemma reports_serial {r r' : Progress C S}
    (h : xs.foldlM (Progress.step env phase cfg epoch) r = .ok r') :
    ∃ os, r'.indexedOutcomes = r.indexedOutcomes ++ os ∧ List.Forall₂
      (fun x y => Reports env.toExecEnv x y ∧ Billed (phase.estimateGas x.2) y.2) xs os := by
  obtain ⟨hrun, hok⟩ := foldlM_eq_run _ h
  obtain ⟨os, hos, hall⟩ := run_log (orStay (Progress.step env phase cfg epoch))
    Progress.indexedOutcomes
    (R := fun x y => Reports env.toExecEnv x y ∧ Billed (phase.estimateGas x.2) y.2)
    (fun r x (hx : r.step env phase cfg epoch x = .ok _) => serial_reports hx) _ _ hok
  exact ⟨os, hrun ▸ hos, hall⟩

/-- A transaction ends the block if it gets to its handler and that does. -/
lemma exists_step_eq_ok {r : Progress C S} {x : ℕ × Transaction} {Lost : Prop}
    (hlost : ∀ db, deductGasFee cfg epoch (phase.estimateGas x.2) x.2 r.st.db = (.ok (), db) →
      ((∃ failure, phase.execute env epoch x.2 { r.st with db := db } = .error failure) ↔ Lost)) :
    (∃ r', r.step env phase cfg epoch x = .ok r') ↔
      (r.Reaches env phase cfg epoch x.2 → ¬ Lost) := by
  have hrun := serialRun_step env cfg epoch phase r x
  generalize r.step env phase cfg epoch x = result at hrun ⊢
  cases hrun with
  | refused _ skipped | unpaid skipped => exact iff_of_true ⟨_, rfl⟩ fun h => absurd h skipped
  | lost reached fee result =>
    simp only [reduceCtorEq, exists_false, false_iff]
    exact fun h => h reached ((hlost _ fee).mp ⟨_, result⟩)
  | failed reached fee result | done reached fee result =>
    refine iff_of_true ⟨_, rfl⟩ fun _ hends => ?_
    obtain ⟨_, herror⟩ := (hlost _ fee).mpr hends
    rw [result] at herror
    cases herror

variable (env) in
/-- The transactions of the serial phase with the progress they meet. -/
def serialSteps (st : ChainState C S) (input : Simple.BlockInput) :
    List (Progress C S × ℕ × Transaction) :=
  trace (orStay (Progress.step env serialPhase input.cfg.toExecConfig input.block.epoch))
    (afterPartitions env input.cfg.toExecConfig input.block st) (serialTxs input.block.transactions)

lemma reports_executeTransactions {block : ExecBlock} {st : ChainState C S} {r : Progress C S}
    (h : executeTransactions env cfg block st = .ok r) :
    List.Forall₂ (fun x y => Reports env.toExecEnv x y ∧ Billed (estimateGas x.2) y.2)
      ((partitions block.transactions).flatten ++ serialTxs block.transactions)
      r.indexedOutcomes := by
  obtain ⟨os, hos, hall⟩ := reports_serial h
  rw [hos]
  refine rel_append ?_ hall
  rw [afterPartitions, (merge_foldl _ _).1, executePartitions, map_map]
  apply rel_flatten
  rw [forall₂_map_right_iff, forall₂_same]
  exact fun group hgroup => reports_executePartition (isSerial_of_mem_partitions hgroup)

/-- A block is reported if and only if its transactions do not end it. -/
lemma executeBlock_reports (st : ChainState C S) (input : Simple.BlockInput) :
    (∃ r st', executeBlock env st input = .ok (r, st') ∧
        ReportsAll env.toExecEnv input.block.transactions r.txOutcomes) ↔
      ∃ r, executeTransactions env input.cfg.toExecConfig input.block st = .ok r := by
  constructor
  · rintro ⟨r, st', h, -⟩
    obtain ⟨progress, hexec, -⟩ := exists_of_map_eq_ok h
    exact ⟨progress, hexec⟩
  · rintro ⟨r, hr⟩
    refine ⟨_, _, by rw [executeBlock, hr]; rfl, ?_⟩
    exact reportsAll_insertionSort (enumerate_perm _)
      ((reports_executeTransactions hr).imp fun _ _ h => h.1)

end Parallel

namespace BlockStm

/-! ### The optimistic path of Block-STM -/

section

variable {blockGasLimit : ℕ} {txHash : ℕ → Hash}

lemma collected_reports (c : Collected) (i : ℕ) :
    ∃ outcome, (c.step blockGasLimit txHash i).txOutcomes = c.txOutcomes ++ [outcome] ∧
      outcome.txHash = txHash i := by
  unfold Collected.step
  (repeat' split) <;> exact ⟨_, rfl, rfl⟩

end

section

variable {env : ExecEnv} {cfg : ExecConfig} {db : StateDb} {epoch : ℕ}

lemma forall₂_range_take {txs : List Transaction} {outcomes : List TxOutcome} {n : ℕ}
    (hn : n ≤ txs.length) (h : List.Forall₂ (fun i (outcome : TxOutcome) =>
      outcome.txHash = (txs.take n)[i]?.elim Hash.zero (·.txHash env)) (List.range n) outcomes) :
    ReportsAll env (txs.take n) outcomes := by
  have hlength : (txs.take n).length = n := length_take_of_le hn
  rw [forall₂_iff_get] at h
  unfold ReportsAll
  rw [forall₂_iff_get]
  refine ⟨?_, ?_⟩
  · rw [hlength, ← h.1, length_range]
  · intro i hi hi'
    have hhash := h.2 i (by omega) hi'
    simpa [List.getElem?_eq_getElem hi] using hhash

variable (env cfg db epoch) in
lemma reportsAll_executeParallel (txs : List Transaction) (blockGasLimit : ℕ) (sched : ℕ → List ℕ) :
    ReportsAll env (txs.take (txs.length % 2 ^ 32))
      (executeParallel env cfg db epoch txs blockGasLimit sched).txOutcomes := by
  simp only [executeParallel]
  split_ifs with hzero
  · rw [hzero]
    exact .nil
  · obtain ⟨os, hos, hall⟩ := run_log (Collected.step blockGasLimit _) Collected.txOutcomes
      (G := fun _ _ => True) (fun c i _ => collected_reports c i) (.start _) _ fun _ _ => trivial
    refine forall₂_range_take (Nat.mod_le _ _) ?_
    refine Eq.mpr (congrArg _ hos) ?_
    exact hall

/-! ### The sequential path of Block-STM -/

lemma sequential_reports (s : Sequential) (tx : Transaction) :
    ∃ outcome, (s.step db env cfg epoch tx).txOutcomes = s.txOutcomes ++ [outcome] ∧
      outcome.txHash = tx.txHash env ∧ Billed (estimateGas tx) outcome := by
  have hrun := s.stepRun_step env cfg db epoch tx
  generalize s.step db env cfg epoch tx = s' at hrun
  cases hrun <;> exact ⟨_, rfl, rfl, by simp [Billed]⟩

lemma reports_executeSequential (txs : List Transaction) :
    List.Forall₂
      (fun tx outcome => outcome.txHash = tx.txHash env ∧ Billed (estimateGas tx) outcome) txs
      (executeSequential env cfg db epoch txs).txOutcomes := by
  obtain ⟨os, hos, hall⟩ := run_log (Sequential.step db env cfg epoch) Sequential.txOutcomes
    (G := fun _ _ => True) (fun s tx _ => sequential_reports s tx) .start txs fun _ _ => trivial
  have hlog : (executeSequential env cfg db epoch txs).txOutcomes = os := hos
  exact hlog ▸ hall

end

/-! ### Blocks of Block-STM -/

variable {C S : Type} {env : ChainEnv C S} {cfg : ExecConfig} {epoch : ℕ}

lemma reports_zip {env : ExecEnv} {outcomes : List TxOutcome}
    (h : ReportsAll env (xs.map Prod.snd) outcomes) :
    List.Forall₂ (Reports env) xs ((xs.map Prod.fst).zip outcomes) := by
  induction xs generalizing outcomes with
  | nil => exact .nil
  | cons x xs ih =>
    cases h with
    | cons hx hxs => exact .cons ⟨rfl, hx⟩ (ih hxs)

/-- Transactions are counted in 32 bits on the optimistic path. -/
def Counted (input : BlockInput) : Prop :=
  input.parallelThreshold ≤ (parallelTxs input.block.transactions).length →
    (parallelTxs input.block.transactions).length < 2 ^ 32

variable {input : BlockInput} {r : Progress C S} {st : ChainState C S}

lemma reportsAll_parallelPhase (hcounted : Counted input) (st : ChainState C S) :
    ReportsAll env.toExecEnv ((parallelTxs input.block.transactions).map Prod.snd)
      (parallelPhase env input st).txOutcomes := by
  simp only [parallelPhase]
  split_ifs with hthreshold
  · rw [length_map] at hthreshold
    have hreports := reportsAll_executeParallel env.toExecEnv input.cfg.toExecConfig
      st.db.toStateDb input.block.epoch
      ((parallelTxs input.block.transactions).map Prod.snd) st.blockGasLimit input.sched
    rw [Nat.mod_eq_of_lt (by rw [length_map]; exact hcounted hthreshold), take_length]
      at hreports
    exact hreports
  · exact (reports_executeSequential _).imp fun _ _ h => h.1

lemma length_parallelPhase (hcounted : ¬ Counted input) (st : ChainState C S) :
    (parallelPhase env input st).txOutcomes.length <
      (parallelTxs input.block.transactions).length := by
  unfold Counted at hcounted
  push Not at hcounted
  obtain ⟨hthreshold, hmany⟩ := hcounted
  simp only [parallelPhase]
  rw [length_map, if_pos hthreshold]
  have hreports := reportsAll_executeParallel env.toExecEnv input.cfg.toExecConfig
      st.db.toStateDb input.block.epoch
    ((parallelTxs input.block.transactions).map Prod.snd) st.blockGasLimit input.sched
  rw [← hreports.length_eq, length_take]
  omega

variable (env) in
/-- The transactions of the serial phase with the progress they meet. -/
def serialSteps (st : ChainState C S) (input : BlockInput) :
    List (Progress C S × ℕ × Transaction) :=
  trace (orStay (Progress.step env serialPhase input.cfg.toExecConfig input.block.epoch))
    (afterParallel env input st) (serialTxs input.block.transactions)

/-- The fee leaves nonces and stakes alone. -/
lemma endsBlock_deductGasFee {tx : Transaction} {gas : ℕ} {db db' : Ledger} (body : TxBody)
    (h : deductGasFee cfg epoch gas tx db = (.ok (), db')) :
    EndsBlock epoch body db' ↔ EndsBlock epoch body db := by
  rcases Simple.chargeFee_ok h with ⟨-, rfl⟩ | ⟨-, addr, -, -, rfl⟩
  · rfl
  · have hnonce (a : AccountAddress) :
        ((db.updateAccount addr (·.debit (gasFee cfg gas) epoch)).account a).nonce =
          (db.account a).nonce := by
      rw [Ledger.toStateDb_updateAccount, StateDb.account_updateAccount]
      split_ifs with ha
      · rw [ha]
        rfl
      · rfl
    have hstakes : (db.updateAccount addr (·.debit (gasFee cfg gas) epoch)).stakes =
      db.stakes := rfl
    unfold EndsBlock
    cases body <;> simp only [hnonce, hstakes]

lemma enumerate_perm (txs : List Transaction) :
    (enumerate txs).Perm (parallelTxs txs ++ serialTxs txs) := by
  have hsplit := filter_append_perm (fun x => !isSerial x.2) (enumerate txs)
  simp only [Bool.not_not] at hsplit
  exact hsplit.symm

lemma reportsAll_of_executeTransactions (h : executeTransactions env input st = .ok r) :
    ReportsAll env.toExecEnv input.block.transactions
        ((r.indexedOutcomes.insertionSort fun a b => a.1 ≤ b.1).map Prod.snd) ↔ Counted input := by
  obtain ⟨os, hos, hall⟩ := reports_serial h
  constructor
  · intro hreports
    by_contra hcounted
    have hlength := hreports.length_eq
    have hphase : (parallelPhase env input st).txOutcomes.length <
        (parallelTxs input.block.transactions).length := length_parallelPhase hcounted st
    have hzip : (afterParallel env input st).indexedOutcomes.length ≤
        (parallelPhase env input st).txOutcomes.length := by
      simp [afterParallel]
    have htotal := (enumerate_perm input.block.transactions).length_eq
    rw [enumerate, length_map, length_zipIdx, length_append] at htotal
    rw [length_map, length_insertionSort, hos, length_append, ← hall.length_eq]
      at hlength
    omega
  · intro hcounted
    refine reportsAll_insertionSort (enumerate_perm _) ?_
    rw [hos]
    exact rel_append (reports_zip (reportsAll_parallelPhase hcounted st))
      (hall.imp fun _ _ h => h.1)

lemma executeBlock_reports (st : ChainState C S) (input : BlockInput) :
    (∃ r st', executeBlock env st input = .ok (r, st') ∧
        ReportsAll env.toExecEnv input.block.transactions r.txOutcomes) ↔
      Counted input ∧ ∃ r, executeTransactions env input st = .ok r := by
  constructor
  · rintro ⟨r, st', h, hreports⟩
    obtain ⟨progress, hexec, heq⟩ := exists_of_map_eq_ok h
    cases heq
    exact ⟨(reportsAll_of_executeTransactions hexec).mp hreports, progress, hexec⟩
  · rintro ⟨hcounted, r, hr⟩
    refine ⟨_, _, by rw [executeBlock, hr]; rfl, ?_⟩
    exact (reportsAll_of_executeTransactions hr).mpr hcounted

end BlockStm

/-! ### One outcome per transaction -/

/-- The two parallel executors return one outcome for each transaction, in block order, if and only
if no transaction sinks the block: there is no handler for the deployment of a template in the
serial phase of the first, and an exit or a claim that is not in order ends the second, which also
counts the transactions of its optimistic phase in 32 bits. -/
theorem one_outcome_per_transaction {C S : Type} (env : ChainEnv C S) (st : ChainState C S)
    (input : BlockStm.BlockInput) :
    ((∃ r st', Parallel.executeBlock env st input.toBlockInput = .ok (r, st') ∧
        ReportsAll env.toExecEnv input.block.transactions r.txOutcomes) ↔
      ∀ x ∈ Parallel.serialSteps env st input.toBlockInput,
        x.1.Reaches env Parallel.serialPhase input.cfg.toExecConfig input.block.epoch x.2.2 →
          ∀ t, x.2.2.body ≠ .deployTemplate t) ∧
    ((∃ r st', BlockStm.executeBlock env st input = .ok (r, st') ∧
        ReportsAll env.toExecEnv input.block.transactions r.txOutcomes) ↔
      BlockStm.Counted input ∧ ∀ x ∈ BlockStm.serialSteps env st input,
        x.1.Reaches env BlockStm.serialPhase input.cfg.toExecConfig input.block.epoch x.2.2 →
          ¬ BlockStm.EndsBlock input.block.epoch x.2.2.body x.1.st.db) := by
  constructor
  · have hlost := exists_foldlM_eq_ok
      (Progress.step env Parallel.serialPhase input.cfg.toExecConfig input.block.epoch)
      (s := Parallel.afterPartitions env input.cfg.toExecConfig input.block st)
      fun r x (hx : x ∈ Parallel.serialTxs input.block.transactions) =>
        exists_step_eq_ok fun _ _ => executeSerial_eq_error (List.mem_filter.mp hx).2
    simp only [not_exists] at hlost
    exact (Parallel.executeBlock_reports st input.toBlockInput).trans hlost
  · have hlost := exists_foldlM_eq_ok
      (Progress.step env BlockStm.serialPhase input.cfg.toExecConfig input.block.epoch)
      (s := BlockStm.afterParallel env input st)
      fun r x (hx : x ∈ BlockStm.serialTxs input.block.transactions) =>
        exists_step_eq_ok fun _ hfee =>
          (BlockStm.executeSerialTx_eq_error env _ (List.mem_filter.mp hx).2).trans
            (BlockStm.endsBlock_deductGasFee _ hfee)
    exact (BlockStm.executeBlock_reports st input).trans (and_congr_right fun _ => hlost)

def freeStmBlock (number epoch threshold : ℕ) (bodies : List TxBody) : BlockStm.BlockInput where
  toBlockInput := freeBlock number epoch bodies
  parallelThreshold := threshold
  sched _ := []

/-- The deployment of a template makes the parallel executor panic; an exit of a validator that has
no stake makes Block-STM return an error. Nothing is reported about the transfer before them. -/
theorem transaction_sinks_block :
    Parallel.executeBlock simpleChain (freshState .empty)
        (freeBlock 1 1 [.transfer ⟨addressOf 1, addressOf 2, 5, 0⟩,
          .deployTemplate ⟨addressOf 1, 0, [], 0, 0⟩]) = .error .panic ∧
      BlockStm.executeBlock simpleChain (freshState .empty)
        (freeStmBlock 1 1 4 [.transfer ⟨addressOf 1, addressOf 2, 5, 0⟩,
          .validatorExit ⟨addressOf 1, 7, 0⟩]) = .error (.error (Simple.noStakeRecord 7)) :=
  ⟨rfl, rfl⟩

end EvaporChain
