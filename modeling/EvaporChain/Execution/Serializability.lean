import EvaporChain.Execution.BlockStm

/-!
# Block-STM execution is serial execution

Each pass of the wave loop makes one more transaction valid for good, so the loop ends in time.
In the state it leaves, collecting the results gives those of serial execution.
-/

namespace EvaporChain

open Core Stm List

namespace BlockStm

/-! ### The wave loop -/

namespace WaveState

variable {txn : ℕ → Txn accepts TxExecResult} {numTxs : ℕ} {sched : ℕ → List ℕ} {w : WaveState}
  {i k : ℕ}

lemma mem_needsReexec : i ∈ w.needsReexec numTxs ↔ i < numTxs ∧ ¬ w.stm.Valid i := by
  simp [needsReexec]

lemma valid_of_needsReexec (h : i ∉ w.needsReexec numTxs) (hi : i < numTxs) : w.stm.Valid i := by
  rw [mem_needsReexec, not_and, not_not] at h
  exact h hi

/-- Between two waves nothing is running and the transactions up to `k` are valid. -/
structure Stable (numTxs k : ℕ) (w : WaveState) : Prop where
  finished : ∀ i, w.stm.Finished i
  validTo : w.stm.ValidTo k
  reads : ∀ i, numTxs ≤ i → (w.stm.task i).reads = []

/-- What is not invalid is valid, also beyond the end of the block. -/
lemma Stable.valid_of_not_mem (h : w.Stable numTxs k) (hi : i ∉ w.needsReexec numTxs) :
    w.stm.Valid i := by
  by_cases hlt : i < numTxs
  · exact valid_of_needsReexec hi hlt
  · intro r hr
    simp [h.reads i (not_lt.mp hlt)] at hr

lemma stable_first (htxn : ∀ i, numTxs ≤ i → ∃ r, txn i = .ret ([], r)) :
    (first txn numTxs sched).Stable numTxs 0 := by
  obtain ⟨sched', hrun, hfin⟩ := phase_eq_run numTxs (sched 0) (init txn)
  have hbeyond {i : ℕ} (hi : numTxs ≤ i) : (init txn).Finished i := htxn i hi
  refine ⟨fun i => ?_, ?_, fun i hi => ?_⟩
  · by_cases hi : i < numTxs
    · exact hfin i hi
    · simp only [first, hrun]
      exact (hbeyond (not_lt.mp hi)).run sched'
  · simp only [first, hrun]
    exact (validTo_init txn).run sched'
  · simp only [first, hrun, (hbeyond hi).task_run sched']
    rfl

lemma Stable.wave (h : w.Stable numTxs k) (m : ℕ) :
    (w.wave txn numTxs sched m).Stable numTxs (k + 1) := by
  rw [WaveState.wave]
  split_ifs with hneeds
  · refine ⟨h.finished, ⟨h.validTo.accepted, fun i _ => h.finished i, fun i _ => ?_⟩, h.reads⟩
    exact h.valid_of_not_mem (by simp [hneeds])
  · have hbeyond {i : ℕ} (hi : numTxs ≤ i) : i ∉ w.needsReexec numTxs := fun hmem =>
      (mem_needsReexec.mp hmem).1.not_ge hi
    refine ⟨fun i => ?_, ?_, fun i hi => ?_⟩
    · by_cases hi : i < numTxs
      · exact (wave_eq_run txn _ _ numTxs _ w.stm).choose_spec.2 i hi
      · have htask := task_wave_of_not_mem txn (hbeyond (not_lt.mp hi)) (h.finished i)
        exact (finished_of_task_eq (htask _ _ _)).mpr (h.finished i)
    · exact h.validTo.wave h.finished txn (fun i hi => (mem_needsReexec.mp hi).2)
        (fun hk => h.valid_of_not_mem hk) _ _ _
    · simp only [serialPart, task_wave_of_not_mem txn (hbeyond hi) (h.finished i)]
      exact h.reads i hi

lemma before_succ (txn : ℕ → Txn accepts TxExecResult) (numTxs : ℕ) (sched : ℕ → List ℕ) (k : ℕ) :
    before txn numTxs sched (k + 1) = (before txn numTxs sched k).wave txn numTxs sched k := by
  rw [before, range_succ, foldl_concat, before]

lemma stable_before (htxn : ∀ i, numTxs ≤ i → ∃ r, txn i = .ret ([], r)) (k : ℕ) :
    (before txn numTxs sched k).Stable numTxs k := by
  induction k with
  | zero => exact stable_first htxn
  | succ k ih =>
    rw [before_succ]
    exact ih.wave k

/-- After as many waves as there are transactions, none of them is invalid. -/
lemma needsReexec_before (htxn : ∀ i, numTxs ≤ i → ∃ r, txn i = .ret ([], r)) (hk : numTxs ≤ k) :
    (before txn numTxs sched k).needsReexec numTxs = [] := by
  rw [eq_nil_iff_forall_not_mem]
  intro i hi
  obtain ⟨hlt, hinvalid⟩ := mem_needsReexec.mp hi
  exact hinvalid ((stable_before htxn k).validTo.valid i (hlt.le.trans hk))

/-- In no wave does a transaction read a value that its writer is about to overwrite. -/
def NoTornRead (txn : ℕ → Txn accepts TxExecResult) (numTxs : ℕ) (sched : ℕ → List ℕ) : Prop :=
  (∀ x ∈ trace Stm.step (Stm.init txn) (sched 0), x.1.Untorn x.2) ∧
    ∀ k < numTxs + 2, ∀ x ∈ trace Stm.step
      ((before txn numTxs sched k).serialPart txn numTxs).stm (sched (k + 1)), x.1.Untorn x.2

lemma consistent_before (htxn : ∀ i, numTxs ≤ i → ∃ r, txn i = .ret ([], r))
    (htorn : NoTornRead txn numTxs sched) (hk : k ≤ numTxs + 2) :
    (before txn numTxs sched k).stm.Consistent txn := by
  induction k with
  | zero => exact (consistent_init txn).phase numTxs htorn.1
  | succ k ih =>
    rw [before_succ, wave]
    split_ifs
    · exact ih (Nat.le_of_succ_le hk)
    · refine Stm.Consistent.phase ?_ numTxs (htorn.2 k hk)
      exact (ih (Nat.le_of_succ_le hk)).start (stable_before htxn k).finished _ _

end WaveState

/-! ### Collecting -/

namespace Collected

variable {blockGasLimit : ℕ} {txHash : ℕ → Hash}

/-- Once the limit is exceeded, all that follows is discarded. -/
lemma foldl_step_exceeded (is : List ℕ) (c : Collected) (h : c.gasExceededFrom.isSome) :
    is.foldl (step blockGasLimit txHash) c = { c with
        stm := is.foldl discard c.stm
        txsFailed := c.txsFailed + is.length
        txOutcomes := c.txOutcomes ++ is.map fun i => overLimitOutcome (txHash i) } := by
  induction is generalizing c with
  | nil => simp
  | cons i is ih =>
    rw [foldl_cons, step, if_pos h, ih]
    · simp [add_assoc, add_comm 1]
    · exact h

/-- The totals are those of a serial execution. -/
structure SameTotals (c : Collected) (s : SerialState) : Prop where
  totalGas : c.totalGas = s.gasUsed
  totalFees : c.totalFees = s.totalFees
  txsExecuted : c.txsExecuted = s.txsExecuted
  txsFailed : c.txsFailed = s.txsFailed
  txOutcomes : c.txOutcomes = s.txOutcomes

/-- So far nothing was discarded. -/
structure Agrees (stm : Stm accepts TxExecResult) (c : Collected) (s : SerialState) : Prop
    extends SameTotals c s where
  stm : c.stm = stm
  gasExceededFrom : c.gasExceededFrom = none

/-- The final values are those of the serial execution, too. -/
structure Ends (numTxs : ℕ) (c : Collected) (s : SerialState) : Prop extends SameTotals c s where
  view : ∀ loc, (latest c.stm.mem loc numTxs).map Prod.snd = s.view loc

end Collected

section

variable {env : ExecEnv} {cfg : ExecConfig} {db : StateDb} {epoch : ℕ} {txs : List Transaction}
  {stm : Stm accepts TxExecResult} {txn : ℕ → Txn accepts TxExecResult}

/-- Discarding the writes from transaction `i` on leaves the values before it. -/
lemma latest_discard {n : ℕ}
    (hserial : ∀ i < n, stm.Serial txn i) {i m : ℕ} (hn : i + m = n) (loc : Location) :
    (latest ((List.range' i m).foldl discard stm).mem loc n).map Prod.snd =
      serialView txn i loc := by
  have hnone : ∀ j, i ≤ j → j < n → ((List.range' i m).foldl discard stm).mem loc j = none := by
    intro j hij hjn
    have hmem : j ∈ List.range' i m := by
      rw [mem_range'_1]
      omega
    rw [mem_foldl_discard, (hserial j hjn).locs, (hserial j hjn).mem]
    split_ifs with hloc
    · rfl
    · cases hlast : lastWrite ((txn j).eval (serialView txn j)).1 loc with
      | none => rfl
      | some v => exact absurd ⟨hmem, (mem_of_lastWrite hlast).2⟩ hloc
  have hbelow : ∀ j < i, ((List.range' i m).foldl discard stm).mem loc j = stm.mem loc j := by
    intro j hj
    rw [mem_foldl_discard, if_neg]
    rw [mem_range'_1]
    omega
  rw [latest_eq_of_none (by omega) hnone, latest_congr hbelow]
  have hserial' : ∀ j < i, stm.Serial txn j := fun j hj => hserial j (by omega)
  exact latest_of_serial hserial' loc

lemma resultOf_serial {i : ℕ} (h : stm.Serial txn i) :
    resultOf stm i = some ((txn i).eval (serialView txn i)).2 := by
  rw [resultOf, h.prog]

lemma map_txHash {txHash : ℕ → Hash} (hhash : ∀ i tx, txs[i]? = some tx → txHash i = tx.txHash env)
    {rest : List Transaction} {i : ℕ} (hrest : txs.drop i = rest) {α : Type} (f : Hash → α) :
    (List.range' i rest.length).map (fun j => f (txHash j)) =
      rest.map fun tx => f (tx.txHash env) := by
  refine ext_getElem (by simp) fun k _ hk => ?_
  rw [length_map] at hk
  have htx : txs[i + k]? = some rest[k] := by
    rw [← List.getElem?_drop, hrest, List.getElem?_eq_getElem hk]
  simp [hhash _ _ htx]

/-- From transaction `i` on, collecting the results does what serial execution does. -/
lemma ends_foldl_step (blockGasLimit : ℕ) (txHash : ℕ → Hash)
    (hserial : ∀ i < txs.length, stm.Serial (programs env cfg db epoch txs) i)
    (hhash : ∀ i tx, txs[i]? = some tx → txHash i = tx.txHash env)
    {rest : List Transaction} {i : ℕ} (hrest : txs.drop i = rest) {c : Collected} {s : SerialState}
    (hagrees : c.Agrees stm s) (hgas : s.gasUsed ≤ u64Max)
    (hview : s.view = serialView (programs env cfg db epoch txs) i) (hi : i ≤ txs.length) :
    ((List.range' i rest.length).foldl (Collected.step blockGasLimit txHash) c).Ends txs.length
      (serialRun env cfg db epoch blockGasLimit s rest) := by
  induction rest generalizing i c s with
  | nil =>
    have hend : i = txs.length := by
      have := List.drop_eq_nil_iff.mp hrest
      omega
    subst hend
    refine ⟨hagrees.toSameTotals, fun loc => ?_⟩
    simp only [length_nil, List.range'_zero, foldl_nil, hagrees.stm, serialRun, hview]
    exact latest_of_serial hserial loc
  | cons tx rest ih =>
    have hlt : i < txs.length := by
      by_contra hge
      rw [drop_eq_nil_of_le (not_lt.mp hge)] at hrest
      cases hrest
    have htx : txs[i]? = some tx := by
      rw [← List.head?_drop, hrest]
      rfl
    have hrest' : txs.drop (i + 1) = rest := by
      rw [← tail_drop, hrest]
      rfl
    have hprog : programs env cfg db epoch txs i = txProgram env cfg db epoch tx := by
      simp [programs, htx]
    have hresult := resultOf_serial (hserial i hlt)
    have hnext (writes : List WriteEntry) (result : TxExecResult)
        (heval : (txProgram env cfg db epoch tx).eval s.view = (writes, result)) :
        (fun loc => (lastWrite writes loc).or (s.view loc)) =
          serialView (programs env cfg db epoch txs) (i + 1) := by
      funext loc
      rw [serialView, hprog, ← hview, heval]
    rw [hprog, ← hview, ← hagrees.stm] at hresult
    rw [length_cons, List.range'_succ, foldl_cons, Collected.step, hresult, serialRun,
      SerialState.next]
    cases heval : (txProgram env cfg db epoch tx).eval s.view with
    | mk writes result =>
      simp only [hagrees.gasExceededFrom, Option.isSome_none, Bool.false_eq_true, if_false,
        hagrees.totalGas]
      cases result with
      | success gasUsed fee =>
        dsimp only
        split_ifs with hover
        · -- over the limit: this transaction and all that follow are discarded
          rw [Collected.foldl_step_exceeded _ _ rfl]
          have hcut := map_txHash hhash hrest' overLimitOutcome
          refine ⟨⟨rfl, hagrees.totalFees, hagrees.txsExecuted, ?_, ?_⟩, fun loc => ?_⟩
          · simp [hagrees.txsFailed, add_assoc, add_comm 1]
          · simp [hagrees.txOutcomes, hcut, hhash i tx htx]
          · have hlen : i + (rest.length + 1) = txs.length := by
              have := congrArg List.length hrest
              simp only [length_drop, length_cons] at this
              omega
            have hlatest := latest_discard hserial hlen loc
            rwa [← hview, ← hagrees.stm] at hlatest
        · have hle : s.gasUsed + gasUsed ≤ u64Max := by
            by_contra hgt
            exact hover (.inl (not_le.mp hgt))
          apply ih hrest'
          · refine ⟨⟨min_eq_left hle, ?_, ?_, hagrees.txsFailed, ?_⟩, hagrees.stm, rfl⟩
            · rw [hagrees.totalFees]
            · rw [hagrees.txsExecuted]
            · rw [hagrees.txOutcomes, hhash i tx htx]
          · exact hle
          · exact hnext writes _ heval
          · exact hlt
      | failed fee error =>
        apply ih hrest'
        · refine ⟨⟨rfl, ?_, hagrees.txsExecuted, ?_, ?_⟩, hagrees.stm, rfl⟩
          · rw [hagrees.totalFees]
          · rw [hagrees.txsFailed]
          · rw [hagrees.txOutcomes, hhash i tx htx]
        · exact hgas
        · exact hnext writes _ heval
        · exact hlt

end

lemma programs_eq_ret (env : ExecEnv) (cfg : ExecConfig) (db : StateDb) (epoch : ℕ)
    (txs : List Transaction) (i : ℕ) (hi : txs.length ≤ i) :
    ∃ r, programs env cfg db epoch txs i = .ret ([], r) :=
  ⟨_, by rw [programs, List.getElem?_eq_none hi]⟩

lemma executeParallel_eq_executeSerial {env : ExecEnv} {cfg : ExecConfig} {db : StateDb}
    {epoch : ℕ} {txs : List Transaction} {sched : ℕ → List ℕ} (blockGasLimit : ℕ)
    (hlength : txs.length + 2 < 2 ^ 32)
    (htorn : WaveState.NoTornRead (programs env cfg db epoch txs) txs.length sched) :
    executeParallel env cfg db epoch txs blockGasLimit sched =
      executeSerial env cfg db epoch txs blockGasLimit := by
  have htxn := programs_eq_ret env cfg db epoch txs
  have hnum : txs.length % 2 ^ 32 = txs.length := Nat.mod_eq_of_lt (by omega)
  have hwaves : (txs.length + 2) % 2 ^ 32 = txs.length + 2 := Nat.mod_eq_of_lt hlength
  rw [executeParallel, hnum]
  split_ifs with hempty
  · rw [List.length_eq_zero_iff.mp hempty]
    rfl
  · simp only [hwaves, take_length]
    set w := WaveState.before (programs env cfg db epoch txs) txs.length sched (txs.length + 2)
    have hstable : w.Stable txs.length (txs.length + 2) := WaveState.stable_before htxn _
    have hserial : ∀ i < txs.length, w.stm.Serial (programs env cfg db epoch txs) i := by
      have hconsistent : w.stm.Consistent _ := WaveState.consistent_before htxn htorn le_rfl
      exact hconsistent.serial (fun i _ => hstable.finished i)
        fun i hi => hstable.validTo.valid i (by omega)
    have hagrees : (Collected.start w.stm).Agrees w.stm ⟨fun _ => none, 0, 0, 0, 0, []⟩ :=
      ⟨⟨rfl, rfl, rfl, rfl, rfl⟩, rfl, rfl⟩
    have hends := ends_foldl_step blockGasLimit (fun i => txs[i]?.elim Hash.zero (·.txHash env))
      hserial (fun i tx htx => by simp [htx]) drop_zero hagrees (Nat.zero_le _)
      (funext fun _ => rfl) (Nat.zero_le _)
    rw [← List.range_eq_range'] at hends
    rw [executeSerial, hends.totalGas, hends.totalFees, hends.txsExecuted, hends.txsFailed,
      hends.txOutcomes, funext hends.view]

/-- Block-STM serializability. The wave loop always reaches a pass in which no transaction is
invalid. And if no transaction reads a value that its writer is about to overwrite, the executor
returns what serial execution returns: the same outcomes, gas, fees and final writes. -/
theorem executeParallel_serializable (env : ExecEnv) (cfg : ExecConfig) (db : StateDb) (epoch : ℕ)
    (txs : List Transaction) (blockGasLimit : ℕ) (sched : ℕ → List ℕ)
    (hlength : txs.length + 2 < 2 ^ 32) :
    (∃ k < txs.length + 2, (WaveState.before (programs env cfg db epoch txs) txs.length sched
      k).needsReexec txs.length = []) ∧
    (WaveState.NoTornRead (programs env cfg db epoch txs) txs.length sched →
      executeParallel env cfg db epoch txs blockGasLimit sched =
        executeSerial env cfg db epoch txs blockGasLimit) := by
  refine ⟨⟨txs.length, by omega, ?_⟩, executeParallel_eq_executeSerial blockGasLimit hlength⟩
  exact WaveState.needsReexec_before (programs_eq_ret env cfg db epoch txs) le_rfl

/-! ### A torn read -/

def transferTen (sender receiver : UInt8) (nonce : ℕ) : Transaction where
  body := .transfer ⟨addressOf sender, addressOf receiver, 10, nonce⟩
  signatureField := none
  publicKeyField := none
  rest := []

/-- Account 1 has 100000 units, and gas costs one unit. -/
def fundedDb : StateDb :=
  StateDb.empty.putAccount { Account.empty (addressOf 1) with balance := 100000 }

def feeConfig : ExecConfig := ⟨false, some ⟨1⟩, []⟩

/-- The first transaction has flushed its fee but not yet its transfer when the second reads
balance and nonce of the sender. -/
def tornSched : ℕ → List ℕ
  | 0 => [0, 0, 0, 0, 0, 0, 1, 1]
  | _ => []

/-- Two transfers with one nonce both succeed; serially the second one fails. -/
theorem executeParallel_torn :
    (executeParallel plainEnv feeConfig fundedDb 0 [transferTen 1 2 0, transferTen 1 3 0] 0
      tornSched).txOutcomes.map (·.success) = [true, true] ∧
    (executeSerial plainEnv feeConfig fundedDb 0 [transferTen 1 2 0, transferTen 1 3 0]
      0).txOutcomes.map (·.success) = [true, false] := by
  decide +kernel

/-- The second transaction starts when the first has flushed everything but the receiver. -/
def untornSched : ℕ → List ℕ
  | 0 => [0, 0, 0, 0, 0, 0, 0, 0, 1, 1]
  | _ => []

theorem executeParallel_untorn :
    executeParallel plainEnv feeConfig fundedDb 0 [transferTen 1 2 0, transferTen 1 3 1] 0
        untornSched =
      executeSerial plainEnv feeConfig fundedDb 0 [transferTen 1 2 0, transferTen 1 3 1] 0 :=
  (executeParallel_serializable plainEnv feeConfig fundedDb 0
    [transferTen 1 2 0, transferTen 1 3 1] 0 untornSched (by decide)).2 (by
      unfold WaveState.NoTornRead
      decide +kernel)

end BlockStm

end EvaporChain
