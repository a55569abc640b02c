import EvaporChain.Execution.TxMemory
import EvaporChain.Execution.GasLimit
import EvaporChain.Execution.Serializability

/-!
# The two paths of the Block-STM executor

Few transactions run on the sequential path, many on the optimistic one, and the two interpret
some of them differently. The sequential path checks no signatures and no gas limit, locks no
deposits, counts the nonces of the zero address, brings back no ghosts and has other reports of
failures. A run of the sequential path is followed by a serial one that agrees up to the deposits
and those nonces as long as the reports are the same; so the paths agree only where none of this
comes into play.
-/

namespace EvaporChain

open Core Function List

namespace BlockStm

/-! ### Where the paths agree -/

/-- Kinds that both paths execute alike if they succeed. -/
def plain (tx : Transaction) : Bool :=
  match tx.body with
  | .transfer t => t.fromAddr ≠ Hash.zero
  | .createObject _ => false
  | _ => true

section

variable (env : ExecEnv) (cfg : ExecConfig) (db : StateDb) (epoch blockGasLimit : ℕ)

/-- The transaction is signed, and its sender either cannot pay the fee, or it succeeds within the
gas limit and is of a kind both paths execute alike. -/
def Sequential.Agrees (s : Sequential) (tx : Transaction) : Prop :=
  verifyTxSignature env cfg.verifySignatures tx cfg.chainId = .ok () ∧
    ∀ txFee charged, s.deductFee db env cfg epoch tx = (.ok txFee, charged) →
      (charged.execute db epoch tx).1 = true ∧
        ¬ overLimit blockGasLimit (s.gasUsed + estimateGas tx) ∧ plain tx = true

instance (s : Sequential) (tx : Transaction) :
    Decidable (s.Agrees env cfg db epoch blockGasLimit tx) :=
  match hfee : s.deductFee db env cfg epoch tx with
  | (.error e, q) =>
    decidable_of_iff (verifyTxSignature env cfg.verifySignatures tx cfg.chainId = .ok ())
      ⟨fun h => ⟨h, by simp [hfee]⟩, And.left⟩
  | (.ok txFee, charged) =>
    decidable_of_iff (verifyTxSignature env cfg.verifySignatures tx cfg.chainId = .ok () ∧
        (charged.execute db epoch tx).1 = true ∧
          ¬ overLimit blockGasLimit (s.gasUsed + estimateGas tx) ∧ plain tx = true)
      ⟨fun h => ⟨h.1, by simpa [hfee] using h.2⟩, fun h => ⟨h.1, h.2 _ _ hfee⟩⟩

end

/-! ### Copies and memory -/

/-- The local copies are those of a memory, except for `creations` deposits and `mints` nonces of
the zero address. -/
structure Follows (db : StateDb) (epoch : ℕ) (creations : AccountAddress → ℕ) (mints : ℕ)
    (q : Sequential) (mem : Memory) : Prop where
  balance : ∀ a, q.getBalance db a = mem.balance db a + minStorageDeposit * creations a
  nonce : ∀ a, q.getNonce db a = mem.nonce db a + if a = Hash.zero then mints else 0
  account : ∀ a, creations a = 0 → (a = Hash.zero → mints = 0) →
    mem (.accountBalance a) = (q.accounts a).map (fun acct => .balance acct.balance) ∧
    mem (.accountNonce a) = (q.accounts a).map (fun acct => .nonce acct.nonce) ∧
    mem (.accountStorageDeposit a) = none ∧ mem (.accountStorageBytes a) = none
  copy : ∀ a acct, q.accounts a = some acct →
    acct.lastTouchedEpoch = epoch ∧ acct.storageDeposit = 0 ∧ acct.storageBytes = 0
  object : ∀ id, mem (.object id) = (q.objects id).map fun obj => obj.elim .objectDeleted .object
  ghost : ∀ id, mem (.ghost id) = none

namespace Follows

variable {db : StateDb} {epoch : ℕ} {creations : AccountAddress → ℕ} {mints : ℕ} {q : Sequential}
  {mem : Memory}

lemma start : Follows db epoch (fun _ => 0) 0 .start fun _ => none where
  balance a := rfl
  nonce a := by simp [Sequential.getNonce, Memory.nonce, Sequential.start]
  account _ _ _ := ⟨rfl, rfl, rfl, rfl⟩
  copy _ _ h := nomatch h
  object _ := rfl
  ghost _ := rfl

section

variable (h : Follows db epoch creations mints q mem)

include h

lemma getObject (id : ObjectId) : q.getObject db id = mem.object db id := by
  have hobject := h.object id
  unfold Sequential.getObject Memory.object
  rcases hq : q.objects id with _ | _ | obj <;> simp [hobject, hq]

/-- A write of one account on both sides, with what it changes of the difference. -/
lemma insert {addr : AccountAddress} {balance balance' nonce nonce' mints' : ℕ}
    (hmints : mints ≤ mints') (hzero : addr ≠ Hash.zero → mints' = mints)
    (hbalance : balance = balance' + minStorageDeposit * creations addr)
    (hnonce : nonce = nonce' + if addr = Hash.zero then mints' else 0) :
    Follows db epoch creations mints' (q.insert addr balance nonce epoch)
      (mem.putAccount addr balance' nonce') := by
  refine ⟨fun a => ?_, fun a => ?_, fun a hcreations hmints' => ?_, fun a acct hacct => ?_,
    fun id => ?_, fun id => ?_⟩
  · rw [Memory.balance_putAccount]
    split_ifs with ha
    · subst ha
      simpa [Sequential.getBalance, Sequential.insert] using hbalance
    · simpa [Sequential.getBalance, Sequential.insert, ha] using h.balance a
  · rw [Memory.nonce_putAccount]
    by_cases ha : a = addr
    · subst ha
      simpa [Sequential.getNonce, Sequential.insert] using hnonce
    · have hsame : (if a = Hash.zero then mints' else 0) = if a = Hash.zero then mints else 0 := by
        split_ifs with hzero'
        · exact hzero fun h => ha (hzero'.trans h.symm)
        · rfl
      rw [if_neg ha, hsame, ← h.nonce a]
      simp [Sequential.getNonce, Sequential.insert, ha]
  · have hold := h.account a hcreations fun hzero' =>
      Nat.eq_zero_of_le_zero (hmints.trans (hmints' hzero').le)
    by_cases ha : a = addr
    · subst ha
      have hoffset : (if a = Hash.zero then mints' else 0) = 0 := by
        split_ifs with hzero'
        · exact hmints' hzero'
        · rfl
      simp [Sequential.insert, Memory.putAccount, Memory.put, hold, hbalance, hcreations, hnonce,
        hoffset]
    · simpa [Sequential.insert, Memory.putAccount, Memory.put, ha] using hold
  · by_cases ha : a = addr
    · subst ha
      simp only [Sequential.insert, update_self, Option.some.injEq] at hacct
      subst hacct
      exact ⟨rfl, rfl, rfl⟩
    · simp only [Sequential.insert, update_of_ne ha] at hacct
      exact h.copy a acct hacct
  · simpa [Sequential.insert, Memory.putAccount, Memory.put] using h.object id
  · simpa [Memory.putAccount, Memory.put] using h.ghost id

/-- A deposit that only the memory has. -/
lemma deposit {addr : AccountAddress}
    (hbalance : minStorageDeposit ≤ mem.balance db addr) (bytes : ℕ) :
    Follows db epoch (Function.update creations addr (creations addr + 1)) mints q
      ((mem.putAccount addr (mem.balance db addr - minStorageDeposit)
        (mem.nonce db addr)).putStorage addr (satAdd 0 minStorageDeposit) bytes) := by
  have hput (m : Memory) (deposit bytes : ℕ) (a : AccountAddress) :
      (m.putStorage addr deposit bytes).balance db a = m.balance db a ∧
        (m.putStorage addr deposit bytes).nonce db a = m.nonce db a := by
    simp [Memory.balance, Memory.nonce, Memory.putStorage, Memory.put]
  refine ⟨fun a => ?_, fun a => ?_, fun a hcreations hmints => ?_, h.copy, fun id => ?_,
    fun id => ?_⟩
  · rw [(hput ..).1, Memory.balance_putAccount, h.balance a]
    by_cases ha : a = addr
    · subst ha
      rw [if_pos rfl, update_self, Nat.mul_succ]
      omega
    · rw [if_neg ha, update_of_ne ha]
  · rw [(hput ..).2, Memory.nonce_putAccount, h.nonce a]
    split_ifs with ha <;> simp_all
  · by_cases ha : a = addr
    · subst ha
      simp at hcreations
    · rw [update_of_ne ha] at hcreations
      simpa [Memory.putStorage, Memory.putAccount, Memory.put, ha]
        using h.account a hcreations hmints
  · simpa [Memory.putStorage, Memory.putAccount, Memory.put] using h.object id
  · simpa [Memory.putStorage, Memory.putAccount, Memory.put] using h.ghost id

lemma putObject (obj : StateObject) :
    Follows db epoch creations mints (q.putObject obj)
      (mem.put (.object obj.id) (.object obj)) := by
  refine ⟨h.balance, h.nonce, h.account, h.copy, fun id => ?_, h.ghost⟩
  by_cases hid : id = obj.id
  · subst hid
    simp [Sequential.putObject, Memory.put]
  · simpa [Sequential.putObject, Memory.put, hid] using h.object id

/-- A sender that can pay on the memory pays on the copies too. -/
lemma deductFee (env : ExecEnv) (cfg : ExecConfig) (tx : Transaction) :
    match mem.charge env cfg db tx with
    | .ok (txFee, charged) => ∃ q', q.deductFee db env cfg epoch tx = (.ok txFee, q') ∧
        Follows db epoch creations mints q' charged
    | .error e => (∀ a, creations a = 0) → q.deductFee db env cfg epoch tx = (.error e, q) := by
  unfold Memory.charge Sequential.deductFee
  cases cfg.feeController with
  | none => exact ⟨q, rfl, h⟩
  | some fc =>
    dsimp only
    by_cases hover : u64Max < fc.computeGasFee (estimateGas tx) 0 + fc.extraFee env tx
    · rw [if_pos hover, if_pos hover]
      exact fun _ => rfl
    rw [if_neg hover, if_neg hover]
    cases tx.sender with
    | none => exact ⟨q, rfl, h⟩
    | some sender =>
      have hbalance := h.balance sender
      dsimp only
      generalize fc.computeGasFee (estimateGas tx) 0 + fc.extraFee env tx = fee
      by_cases hpoor : mem.balance db sender < fee
      · rw [if_pos hpoor]
        intro hnone
        rw [hnone sender, mul_zero, add_zero] at hbalance
        rw [hbalance, if_pos hpoor]
      · rw [if_neg hpoor, if_neg (by omega)]
        exact ⟨_, rfl, h.insert le_rfl (fun _ => rfl) (by omega) (h.nonce sender)⟩

variable {q' : Sequential} {mem' : Memory}

/-- A transfer that succeeds on both sides; the copies count the nonce of the zero address. -/
lemma transfer {t : TransferTx}
    (hq : q.transfer db epoch t = (true, q')) (hmem : mem.transfer db t = some mem') :
    Follows db epoch creations (if t.fromAddr = Hash.zero then mints + 1 else mints) q' mem' := by
  simp only [Memory.transfer, Option.ite_none_right_eq_some, Option.some.injEq] at hmem
  obtain ⟨⟨hself, -, -, hbalance, -⟩, rfl⟩ := hmem
  simp only [Sequential.transfer] at hq
  split_ifs at hq <;> cases hq
  have hfrom := h.balance t.fromAddr
  have hsent : Follows db epoch creations (if t.fromAddr = Hash.zero then mints + 1 else mints)
      (q.insert t.fromAddr (q.getBalance db t.fromAddr - t.amount) (q.getNonce db t.fromAddr + 1)
        epoch)
      (mem.putAccount t.fromAddr (mem.balance db t.fromAddr - t.amount)
        (if t.fromAddr = Hash.zero then mem.nonce db t.fromAddr
        else mem.nonce db t.fromAddr + 1)) := by
    apply h.insert
    · split_ifs <;> omega
    · exact fun hzero => if_neg hzero
    · omega
    · rw [h.nonce]
      split_ifs <;> omega
  have hto := hsent.balance t.toAddr
  have hto' := hsent.nonce t.toAddr
  rw [Memory.balance_putAccount, if_neg (Ne.symm hself)] at hto
  rw [Memory.nonce_putAccount, if_neg (Ne.symm hself)] at hto'
  exact hsent.insert le_rfl (fun _ => rfl) (by omega) hto'

lemma validatorStake {t : ValidatorStakeTx} (hq : q.validatorStake db epoch t = (true, q'))
    (hmem : mem.validatorStake db t = some mem') : Follows db epoch creations mints q' mem' := by
  simp only [Memory.validatorStake, Option.ite_none_right_eq_some, Option.some.injEq] at hmem
  obtain ⟨⟨-, -, hbalance, -⟩, rfl⟩ := hmem
  simp only [Sequential.validatorStake] at hq
  split_ifs at hq <;> cases hq
  have hold := h.balance t.validatorAddress
  exact h.insert le_rfl (fun _ => rfl) (by omega) (by rw [h.nonce]; omega)

lemma validatorExit {t : ValidatorExitTx} (hq : q.validatorExit db epoch t = (true, q'))
    (hmem : mem.validatorExit db t = some mem') : Follows db epoch creations mints q' mem' := by
  simp only [Memory.validatorExit, Option.ite_none_right_eq_some, Option.some.injEq] at hmem
  obtain ⟨-, rfl⟩ := hmem
  simp only [Sequential.validatorExit] at hq
  split_ifs at hq <;> cases hq
  exact h.insert le_rfl (fun _ => rfl) (h.balance _) (by rw [h.nonce]; omega)

lemma refresh {t : RefreshTx} (hq : q.refresh db epoch t = (true, q'))
    (hmem : mem.refresh db epoch t = some mem') : Follows db epoch creations mints q' mem' := by
  unfold Sequential.refresh at hq
  unfold Memory.refresh at hmem
  rw [h.getObject] at hq
  cases hobject : mem.object db t.objectId with
  | none =>
    rw [hobject] at hq
    cases hq
  | some obj =>
    rw [hobject] at hq hmem
    cases hq
    cases hmem
    have hput := h.putObject (BlockStm.refreshed epoch t.energyDeposit obj)
    unfold BlockStm.refreshed at hput ⊢
    split_ifs at hput ⊢ <;> exact hput

lemma createObject {t : CreateObjectTx}
    (hq : q.createObject db epoch t = (true, q')) (hmem : mem.createObject db epoch t = some mem') :
    Follows db epoch (Function.update creations t.creator (creations t.creator + 1)) mints q'
      mem' := by
  simp only [Memory.createObject, Option.ite_none_right_eq_some, Option.some.injEq] at hmem
  obtain ⟨⟨-, hbalance⟩, rfl⟩ := hmem
  simp only [Sequential.createObject] at hq
  split_ifs at hq <;> cases hq
  exact (h.deposit hbalance _).putObject _

/-- A body that succeeds on both sides. -/
lemma execute {tx : Transaction}
    (hq : q.execute db epoch tx = (true, q')) (hmem : mem.body db epoch tx = some mem') :
    ∃ creations' mints', creations ≤ creations' ∧ mints ≤ mints' ∧
      Follows db epoch creations' mints' q' mem' ∧
      (plain tx = true ↔ creations' = creations ∧ mints' = mints) := by
  unfold Sequential.execute at hq
  unfold Memory.body at hmem
  unfold plain
  cases hbody : tx.body with
  | transfer t =>
    simp only [hbody] at hq hmem ⊢
    refine ⟨_, _, le_rfl, ?_, h.transfer hq hmem, ?_⟩
    · split_ifs <;> omega
    · by_cases hzero : t.fromAddr = Hash.zero <;> simp [hzero]
  | createObject t =>
    simp only [hbody] at hq hmem ⊢
    refine ⟨_, _, ?_, le_rfl, h.createObject hq hmem, ?_⟩
    · exact le_update_self_iff.mpr (Nat.le_succ _)
    · simp
  | refresh t =>
    simp only [hbody] at hq hmem ⊢
    exact ⟨_, _, le_rfl, le_rfl, h.refresh hq hmem, by simp⟩
  | validatorStake t =>
    simp only [hbody] at hq hmem ⊢
    exact ⟨_, _, le_rfl, le_rfl, h.validatorStake hq hmem, by simp⟩
  | validatorExit t =>
    simp only [hbody] at hq hmem ⊢
    exact ⟨_, _, le_rfl, le_rfl, h.validatorExit hq hmem, by simp⟩
  | _ => simp [hbody] at hq

end

/-- Without a difference, what succeeds on the copies succeeds on the memory. -/
lemma body_isSome (h : Follows db epoch (fun _ => 0) 0 q mem) {tx : Transaction}
    (hq : q.execute db epoch tx = (true, q')) (hplain : plain tx = true) :
    ∃ mem', mem.body db epoch tx = some mem' := by
  have hbalance (a : AccountAddress) : q.getBalance db a = mem.balance db a := h.balance a
  have hnonce (a : AccountAddress) : q.getNonce db a = mem.nonce db a := by simp [h.nonce a]
  unfold Sequential.execute at hq
  unfold plain at hplain
  unfold Memory.body
  cases hbody : tx.body with
  | transfer t =>
    simp only [hbody, Sequential.transfer] at hq hplain ⊢
    split_ifs at hq with hself hsender hover hreceiver <;>
      simp at hq
    push Not at hself hsender
    have hto : (q.insert t.fromAddr (q.getBalance db t.fromAddr - t.amount)
        (q.getNonce db t.fromAddr + 1) epoch).getBalance db t.toAddr =
          q.getBalance db t.toAddr := by
      simp [Sequential.getBalance, Sequential.insert, Ne.symm hself.1]
    rw [hto] at hreceiver
    simp only [hbalance, hnonce] at hsender hover hreceiver
    exact ⟨_, if_pos ⟨hself.1, hself.2, fun _ => ⟨hsender.1, not_lt.mp hover⟩, hsender.2,
      not_lt.mp hreceiver⟩⟩
  | createObject t => simp [hbody] at hplain
  | refresh t =>
    simp only [hbody, Sequential.refresh, h.getObject] at hq ⊢
    unfold Memory.refresh
    cases hobject : mem.object db t.objectId with
    | none => simp [hobject] at hq
    | some obj => exact ⟨_, rfl⟩
  | validatorStake t =>
    simp only [hbody, Sequential.validatorStake, hbalance, hnonce] at hq ⊢
    split_ifs at hq with hstake hover <;>
      simp at hq
    push Not at hstake
    exact ⟨_, if_pos ⟨hstake.1, hstake.2.1, hstake.2.2, not_lt.mp hover⟩⟩
  | validatorExit t =>
    simp only [hbody, Sequential.validatorExit, hnonce] at hq ⊢
    split_ifs at hq with hexit hover <;>
      simp at hq
    exact ⟨_, if_pos ⟨not_not.mp hexit, not_lt.mp hover⟩⟩
  | _ => simp [hbody] at hq

end Follows

/-! ### Reports -/

lemma estimateGas_pos (tx : Transaction) : 0 < estimateGas tx := by
  have hsat (a b : ℕ) (ha : 0 < a) : 0 < satAdd a b := lt_min (by omega) (by decide)
  unfold estimateGas TxBody.gas
  cases tx.body with
  | privateTransfer ins outs => exact hsat _ _ (hsat _ _ (by decide))
  | _ =>
    dsimp only
    first | exact hsat _ _ (by decide) | decide

section

variable {env : ExecEnv} {cfg : ExecConfig} {db : StateDb} {epoch blockGasLimit : ℕ}

/-- A fee that cannot be charged changes nothing and is not reported as a missing signature. -/
lemma deductFee_error {q q' : Sequential} {tx : Transaction} {e : String}
    (h : q.deductFee db env cfg epoch tx = (.error e, q')) :
    q' = q ∧ e ≠ "signature verification failed" := by
  unfold Sequential.deductFee at h
  cases hfc : cfg.feeController with
  | none => simp [hfc] at h
  | some fc =>
    simp only [hfc] at h
    split_ifs at h with hover
    · cases h
      exact ⟨rfl, by decide⟩
    · cases hsender : tx.sender with
      | none => simp [hsender] at h
      | some sender =>
        simp only [hsender] at h
        split_ifs at h
        · cases h
          refine ⟨rfl, fun heq => ?_⟩
          have hhead := congrArg (fun s : String => s.toList.head?) heq
          have hi : (toString "insufficient balance for gas: ").toList.head? = some 'i' := by decide
          simp only [String.toList_append, List.head?_append, hi, Option.some_or] at hhead
          exact absurd hhead (by decide)
        · simp at h

/-- The sequential path has come as far as a serial execution, and the reports are the same. -/
structure Tracks (db : StateDb) (epoch : ℕ) (creations : AccountAddress → ℕ) (mints : ℕ)
    (q : Sequential) (s : SerialState) : Prop where
  follows : Follows db epoch creations mints q s.view
  gasUsed_le : s.gasUsed ≤ u64Max
  totalFees_le : s.totalFees ≤ u64Max
  gasUsed : q.gasUsed = s.gasUsed
  totalFees : q.totalFees = s.totalFees
  txsExecuted : q.txsExecuted = s.txsExecuted
  txsFailed : q.txsFailed = s.txsFailed
  txOutcomes : q.txOutcomes = s.txOutcomes

namespace Tracks

variable {creations : AccountAddress → ℕ} {mints : ℕ} {q : Sequential} {s s' : SerialState}
  {tx : Transaction}

lemma next (h : Tracks db epoch creations mints q s)
    (hnext : s.next env cfg db epoch blockGasLimit tx = some s')
    (hout : s'.txOutcomes = (q.step db env cfg epoch tx).txOutcomes) :
    ∃ creations' mints', creations ≤ creations' ∧ mints ≤ mints' ∧
      Tracks db epoch creations' mints' (q.step db env cfg epoch tx) s' ∧
      (q.Agrees env cfg db epoch blockGasLimit tx ↔ creations' = creations ∧ mints' = mints) := by
  have hgas := estimateGas_pos tx
  have hfee := h.follows.deductFee env cfg tx
  have hrun := txRun_eval env cfg db epoch s.view tx
  have hstep := q.stepRun_step env cfg db epoch tx
  generalize q.step db env cfg epoch tx = q' at hstep hout ⊢
  unfold SerialState.next at hnext
  generalize (txProgram env cfg db epoch tx).eval s.view = r at hrun hnext
  cases hrun with
  | unsigned signature =>
    cases hnext
    cases hstep with
    | unpaid fee _ =>
      simp [h.txOutcomes] at hout
      exact absurd hout.symm (deductFee_error fee).2
    | done _ _ _ | failed _ _ _ => simp [h.txOutcomes, hgas.ne] at hout
  | unpaid signature charge =>
    cases hnext
    cases hstep with
    | unpaid fee _ =>
      obtain ⟨rfl, -⟩ := deductFee_error fee
      refine ⟨creations, mints, le_rfl, le_rfl, ?_, fun _ => ⟨rfl, rfl⟩, fun _ => ⟨signature, ?_⟩⟩
      · have hfollows := h.follows
        refine ⟨⟨hfollows.balance, hfollows.nonce, hfollows.account, hfollows.copy,
          hfollows.object, hfollows.ghost⟩, h.gasUsed_le, satAdd_le_max _ _, h.gasUsed, ?_,
          h.txsExecuted, ?_, hout.symm⟩
        · exact h.totalFees.trans (min_eq_left h.totalFees_le).symm
        · rw [h.txsFailed]
      · intro txFee charged hok
        simp [fee] at hok
    | done _ _ _ | failed _ _ _ => simp [h.txOutcomes, hgas.ne] at hout
  | failed signature charge body =>
    cases hnext
    rw [charge] at hfee
    obtain ⟨q₁, hq₁, hfollows⟩ := hfee
    cases hstep with
    | unpaid fee _ => simp [hq₁] at fee
    | done _ _ _ | failed _ _ _ => simp [h.txOutcomes, hgas.ne] at hout
  | done signature charge body writes_eq =>
    rw [charge] at hfee
    obtain ⟨q₁, hq₁, hfollows⟩ := hfee
    dsimp only at hnext
    split_ifs at hnext with hover
    cases hnext
    cases hstep with
    | unpaid fee _ => simp [hq₁] at fee
    | failed _ _ _ => simp [h.txOutcomes] at hout
    | done fee result copies =>
      rw [fee] at hq₁
      cases hq₁
      obtain ⟨creations', mints', hcreations, hmints, hfollows', hplain⟩ :=
        hfollows.execute result body
      have hle : s.gasUsed + estimateGas tx ≤ u64Max := by
        by_contra hgt
        exact hover (.inl (not_le.mp hgt))
      refine ⟨creations', mints', hcreations, hmints, ?_, ?_⟩
      · subst writes_eq
        refine ⟨⟨hfollows'.balance, hfollows'.nonce, hfollows'.account, hfollows'.copy,
          hfollows'.object, hfollows'.ghost⟩, hle, satAdd_le_max _ _, ?_, ?_, ?_, ?_, ?_⟩
        · rw [h.gasUsed]
          exact min_eq_left hle
        · rw [h.totalFees]
        · rw [h.txsExecuted]
        · obtain ⟨_, _, rfl⟩ := copies
          exact h.txsFailed
        · exact hout.symm
      · rw [← hplain]
        refine ⟨fun hagrees => (hagrees.2 _ _ fee).2.2, fun htx => ⟨signature, ?_⟩⟩
        intro txFee charged hok
        obtain ⟨-, rfl⟩ := Prod.mk.inj (fee.symm.trans hok)
        exact ⟨by rw [result], by rw [h.gasUsed]; exact hover, htx⟩

/-- A transaction over the limit is reported in another way on the sequential path. -/
lemma txOutcomes_ne (h : Tracks db epoch creations mints q s)
    (hnext : s.next env cfg db epoch blockGasLimit tx = none) :
    (q.step db env cfg epoch tx).txOutcomes ≠ s.txOutcomes ++
      [overLimitOutcome (tx.txHash env)] := by
  have hfee := h.follows.deductFee env cfg tx
  have hrun := txRun_eval env cfg db epoch s.view tx
  have hstep := q.stepRun_step env cfg db epoch tx
  generalize q.step db env cfg epoch tx = q' at hstep ⊢
  unfold SerialState.next at hnext
  generalize (txProgram env cfg db epoch tx).eval s.view = r at hrun hnext
  cases hrun with
  | unsigned signature | unpaid signature charge | failed signature charge body => cases hnext
  | done signature charge body writes_eq =>
    rw [charge] at hfee
    obtain ⟨q₁, hq₁, -⟩ := hfee
    cases hstep with
    | unpaid fee _ => simp [hq₁] at fee
    | done _ _ _ | failed _ _ _ => simp [h.txOutcomes, overLimitOutcome]

/-- Without a difference, the reports stay the same where the paths agree. -/
lemma exists_next (h : Tracks db epoch (fun _ => 0) 0 q s)
    (hagrees : q.Agrees env cfg db epoch blockGasLimit tx) :
    ∃ s', s.next env cfg db epoch blockGasLimit tx = some s' ∧
      s'.txOutcomes = (q.step db env cfg epoch tx).txOutcomes := by
  obtain ⟨hsigned, hok⟩ := hagrees
  have hfee := h.follows.deductFee env cfg tx
  have hrun := txRun_eval env cfg db epoch s.view tx
  have hstep := q.stepRun_step env cfg db epoch tx
  generalize q.step db env cfg epoch tx = q' at hstep ⊢
  unfold SerialState.next
  generalize (txProgram env cfg db epoch tx).eval s.view = r at hrun ⊢
  cases hrun with
  | unsigned signature => simp [hsigned] at signature
  | unpaid signature charge =>
    rw [charge] at hfee
    have hq := hfee fun _ => rfl
    cases hstep with
    | unpaid fee _ =>
      obtain ⟨he, -⟩ := Prod.mk.inj (fee.symm.trans hq)
      obtain rfl := Except.error.inj he
      exact ⟨_, rfl, by simp [h.txOutcomes]⟩
    | done fee _ _ | failed fee _ _ => simp [hq] at fee
  | failed signature charge body =>
    rw [charge] at hfee
    obtain ⟨q₁, hq₁, hfollows⟩ := hfee
    obtain ⟨hexec, -, hplain⟩ := hok _ _ hq₁
    obtain ⟨mem', hmem⟩ := hfollows.body_isSome (Prod.ext hexec rfl) hplain
    simp [hmem] at body
  | done signature charge body writes_eq =>
    rw [charge] at hfee
    obtain ⟨q₁, hq₁, hfollows⟩ := hfee
    obtain ⟨hexec, hlimit, -⟩ := hok _ _ hq₁
    rw [h.gasUsed] at hlimit
    refine ⟨_, if_neg hlimit, ?_⟩
    cases hstep with
    | unpaid fee _ => simp [hq₁] at fee
    | done _ _ _ => simp [h.txOutcomes]
    | failed fee result _ =>
      obtain ⟨-, rfl⟩ := Prod.mk.inj (fee.symm.trans hq₁)
      simp [result] at hexec

end Tracks

/-! ### Whole runs -/

lemma exists_outcome_next {s s' : SerialState} {tx : Transaction}
    (hnext : s.next env cfg db epoch blockGasLimit tx = some s') :
    ∃ outcome, s'.txOutcomes = s.txOutcomes ++ [outcome] := by
  unfold SerialState.next at hnext
  generalize (txProgram env cfg db epoch tx).eval s.view = r at hnext
  rcases r with ⟨writes, ⟨gasUsed, fee⟩ | ⟨fee, error⟩⟩
  · dsimp only at hnext
    split_ifs at hnext
    cases hnext
    exact ⟨_, rfl⟩
  · cases hnext
    exact ⟨_, rfl⟩

variable (env cfg db epoch blockGasLimit) in
lemma exists_outcomes_serialRun (s : SerialState) (txs : List Transaction) :
    ∃ os, (serialRun env cfg db epoch blockGasLimit s txs).txOutcomes = s.txOutcomes ++ os := by
  induction txs generalizing s with
  | nil => exact ⟨[], (append_nil _).symm⟩
  | cons tx txs ih =>
    rw [serialRun]
    cases hnext : s.next env cfg db epoch blockGasLimit tx with
    | none => exact ⟨_, rfl⟩
    | some s' =>
      obtain ⟨os, hos⟩ := ih s'
      obtain ⟨outcome, houtcome⟩ := exists_outcome_next hnext
      exact ⟨outcome :: os, by rw [hos, houtcome, append_assoc, singleton_append]⟩

variable (env cfg db epoch) in
lemma exists_outcomes_run (q : Sequential) (txs : List Transaction) :
    ∃ os, (run (Sequential.step db env cfg epoch) q txs).txOutcomes = q.txOutcomes ++ os := by
  obtain ⟨os, hos, -⟩ := run_log (Sequential.step db env cfg epoch) Sequential.txOutcomes
    (G := fun _ _ => True) (fun s tx _ => sequential_reports s tx) q txs fun _ _ => trivial
  exact ⟨os, hos⟩

namespace Tracks

variable {creations : AccountAddress → ℕ} {mints : ℕ} {q : Sequential} {s : SerialState}

/-- While the reports are the same, the difference only grows, and it grows at every step at which
the paths do not agree. -/
lemma run (h : Tracks db epoch creations mints q s) (txs : List Transaction)
    (hout : (serialRun env cfg db epoch blockGasLimit s txs).txOutcomes =
      (Core.run (Sequential.step db env cfg epoch) q txs).txOutcomes) :
    ∃ creations' mints', creations ≤ creations' ∧ mints ≤ mints' ∧
      Tracks db epoch creations' mints' (Core.run (Sequential.step db env cfg epoch) q txs)
        (serialRun env cfg db epoch blockGasLimit s txs) ∧
      (creations' = creations → mints' = mints →
        ∀ x ∈ trace (Sequential.step db env cfg epoch) q txs,
        x.1.Agrees env cfg db epoch blockGasLimit x.2) := by
  induction txs generalizing creations mints q s with
  | nil => exact ⟨creations, mints, le_rfl, le_rfl, h, fun _ _ x hx => nomatch hx⟩
  | cons tx txs ih =>
    rw [serialRun, run_cons] at hout
    obtain ⟨os, hos⟩ := exists_outcomes_run env cfg db epoch (q.step db env cfg epoch tx) txs
    have hlength : (q.step db env cfg epoch tx).txOutcomes.length = s.txOutcomes.length + 1 := by
      obtain ⟨o, ho, -⟩ := sequential_reports q tx
      rw [ho, length_append, h.txOutcomes, length_singleton]
    cases hnext : s.next env cfg db epoch blockGasLimit tx with
    | none =>
      simp only [hnext, hos, map_cons] at hout
      rw [← singleton_append, ← append_assoc] at hout
      have hreport := append_inj_left hout (by simp [hlength])
      exact absurd hreport.symm (h.txOutcomes_ne hnext)
    | some s' =>
      simp only [hnext] at hout
      obtain ⟨os', hos'⟩ := exists_outcomes_serialRun env cfg db epoch blockGasLimit s' txs
      obtain ⟨o', ho'⟩ := exists_outcome_next hnext
      have hreport : s'.txOutcomes = (q.step db env cfg epoch tx).txOutcomes := by
        rw [hos, hos'] at hout
        exact append_inj_left hout (by simp [ho', hlength])
      obtain ⟨creations₁, mints₁, hcreations₁, hmints₁, h₁, hagrees₁⟩ := h.next hnext hreport
      obtain ⟨creations₂, mints₂, hcreations₂, hmints₂, h₂, hagrees₂⟩ := ih h₁ hout
      rw [serialRun, hnext]
      refine ⟨creations₂, mints₂, hcreations₁.trans hcreations₂, hmints₁.trans hmints₂, h₂, ?_⟩
      rintro rfl rfl
      obtain rfl : creations₁ = creations₂ := le_antisymm hcreations₂ hcreations₁
      obtain rfl : mints₁ = mints₂ := le_antisymm hmints₂ hmints₁
      intro x hx
      rcases List.mem_cons.mp hx with rfl | hx
      · exact hagrees₁.mpr ⟨rfl, rfl⟩
      · exact hagrees₂ rfl rfl x hx

/-- Where the paths agree at every step, no difference comes up. -/
lemma run_of_agrees (h : Tracks db epoch (fun _ => 0) 0 q s) (txs : List Transaction)
    (hagrees : ∀ x ∈ trace (Sequential.step db env cfg epoch) q txs,
      x.1.Agrees env cfg db epoch blockGasLimit x.2) :
    Tracks db epoch (fun _ => 0) 0 (Core.run (Sequential.step db env cfg epoch) q txs)
      (serialRun env cfg db epoch blockGasLimit s txs) := by
  induction txs generalizing q s with
  | nil => exact h
  | cons tx txs ih =>
    have htx := hagrees (q, tx) (.head _)
    obtain ⟨s', hnext, hreport⟩ := h.exists_next htx
    obtain ⟨creations', mints', -, -, h', hiff⟩ := h.next hnext hreport
    obtain ⟨rfl, rfl⟩ := hiff.mp htx
    rw [serialRun, hnext]
    exact ih h' fun x hx => hagrees x (.tail _ hx)

end Tracks

/-! ### Results -/

lemma tracks_start : Tracks db epoch (fun _ => 0) 0 .start ⟨fun _ => none, 0, 0, 0, 0, []⟩ :=
  ⟨.start, Nat.zero_le _, Nat.zero_le _, rfl, rfl, rfl, rfl, rfl⟩

variable (env cfg db epoch blockGasLimit) in
def PathsAgree (txs : List Transaction) : Prop :=
  ∀ x ∈ trace (Sequential.step db env cfg epoch) .start txs,
    x.1.Agrees env cfg db epoch blockGasLimit x.2

/-- Without a difference, the copies are written back as the memory is. -/
lemma Follows.finalWrites {q : Sequential} {mem : Memory}
    (h : Follows db epoch (fun _ => 0) 0 q mem) :
    materializeFinalState mem db epoch =
      { accounts addr := (q.accounts addr).map fun a => (a.balance, a.nonce, a.lastTouchedEpoch)
        storage addr :=
          ((q.accounts addr).filter fun a => 0 < a.storageDeposit || 0 < a.storageBytes).map
            fun a => (a.storageDeposit, a.storageBytes)
        objects := q.objects
        ghosts _ := none } := by
  unfold materializeFinalState
  congr 1
  · funext addr
    obtain ⟨hbalance, hnonce, -⟩ := h.account addr rfl fun _ => rfl
    cases hcopy : q.accounts addr with
    | none => simp [hbalance, hnonce, hcopy]
    | some acct => simp [hbalance, hnonce, hcopy, (h.copy addr acct hcopy).1]
  · funext addr
    obtain ⟨-, -, hdeposit, hbytes⟩ := h.account addr rfl fun _ => rfl
    cases hcopy : q.accounts addr with
    | none => simp [hdeposit, hbytes]
    | some acct =>
      obtain ⟨-, hdeposit', hbytes'⟩ := h.copy addr acct hcopy
      simp [hdeposit, hbytes, hdeposit', hbytes']
  · funext id
    rcases hcopy : q.objects id with _ | _ | obj <;> simp [h.object id, hcopy]
  · funext id
    simp [h.ghost id]

lemma executeSequential_eq_executeSerial {txs : List Transaction}
    (h : PathsAgree env cfg db epoch blockGasLimit txs) :
    executeSequential env cfg db epoch txs = executeSerial env cfg db epoch txs blockGasLimit := by
  have htracks := tracks_start.run_of_agrees txs h
  rw [executeSequential, executeSerial, htracks.follows.finalWrites, htracks.gasUsed,
    htracks.totalFees, htracks.txsExecuted, htracks.txsFailed, htracks.txOutcomes]

/-- Balance and nonce of an account after the results are written back. -/
lemma account_applyWrites (db : StateDb) (writes : FinalWrites) (addr : AccountAddress) :
    ((applyWrites db writes).accounts addr).elim (0, 0) (fun a => (a.balance, a.nonce)) =
      (writes.accounts addr).elim ((db.accounts addr).elim (0, 0) fun a => (a.balance, a.nonce))
        fun w => (w.1, w.2.1) := by
  simp only [applyWrites]
  rcases hstorage : writes.storage addr with _ | ⟨deposit, bytes⟩ <;>
    rcases haccounts : writes.accounts addr with _ | ⟨balance, nonce, touched⟩ <;>
    rcases db.accounts addr with _ | acct <;> rfl

lemma account_materializeFinalState (mem : Memory) (addr : AccountAddress) :
    ((materializeFinalState mem db epoch).accounts addr).elim
        ((db.accounts addr).elim (0, 0) fun a => (a.balance, a.nonce)) (fun w => (w.1, w.2.1)) =
      (mem.balance db addr, mem.nonce db addr) := by
  simp only [materializeFinalState, Memory.balance, Memory.nonce]
  rcases mem (.accountBalance addr) with _ | (_ | _ | _ | _ | _ | _ | _ | _) <;>
    rcases mem (.accountNonce addr) with _ | (_ | _ | _ | _ | _ | _ | _ | _) <;>
    rcases db.accounts addr with _ | acct <;> rfl

/-- If both paths give the same reports and the same database, they agree at every step. -/
lemma pathsAgree_of_eq {txs : List Transaction}
    (hout : (executeSerial env cfg db epoch txs blockGasLimit).txOutcomes =
      (executeSequential env cfg db epoch txs).txOutcomes)
    (hdb : applyWrites db (executeSerial env cfg db epoch txs blockGasLimit).finalWrites =
      applyWrites db (executeSequential env cfg db epoch txs).finalWrites) :
    PathsAgree env cfg db epoch blockGasLimit txs := by
  obtain ⟨creations, mints, -, -, htracks, hagrees⟩ := tracks_start.run txs hout
  have hsame (addr : AccountAddress) := congrArg
    (fun db => (db.accounts addr).elim (0, 0) fun a => (a.balance, a.nonce)) hdb
  have hcopies (addr : AccountAddress) (q : Sequential) :
      ((q.accounts addr).map fun a => (a.balance, a.nonce, a.lastTouchedEpoch)).elim
        ((db.accounts addr).elim (0, 0) fun a => (a.balance, a.nonce)) (fun w => (w.1, w.2.1)) =
      (q.getBalance db addr, q.getNonce db addr) := by
    unfold Sequential.getBalance Sequential.getNonce
    rcases q.accounts addr with _ | acct <;> rcases db.accounts addr with _ | acct' <;> rfl
  simp only [account_applyWrites] at hsame
  have hequal (addr : AccountAddress) := (account_materializeFinalState _ addr).symm.trans
    ((hsame addr).trans (hcopies addr _))
  apply hagrees
  · funext addr
    have hbalance := htracks.follows.balance addr
    have hdeposits : minStorageDeposit * creations addr = 0 := by
      have := (Prod.mk.inj (hequal addr)).1
      omega
    exact (Nat.mul_eq_zero.mp hdeposits).resolve_left (by decide)
  · have hnonce := htracks.follows.nonce Hash.zero
    rw [if_pos rfl, ← (Prod.mk.inj (hequal Hash.zero)).2] at hnonce
    omega

end

/-! ### Blocks -/

section

variable {C S : Type} (env : ChainEnv C S)

/-- Transactions of the parallel phase. -/
def phaseTxs (input : BlockInput) : List Transaction :=
  (parallelTxs input.block.transactions).map Prod.snd

/-- Another threshold chooses the same path, or the paths agree at every step. -/
def PathsMatch (st : ChainState C S) (input : BlockInput) (threshold : ℕ) : Prop :=
  (input.parallelThreshold ≤ (phaseTxs input).length ↔ threshold ≤ (phaseTxs input).length) ∨
    PathsAgree env.toExecEnv input.cfg.toExecConfig st.db.toStateDb input.block.epoch
      st.blockGasLimit (phaseTxs input)

variable {env} {st : ChainState C S} {input input' : BlockInput}

/-- Two phases that leave the same give the same reports and the same database. -/
lemma parallelPhase_of_afterParallel_eq
    (h : afterParallel env input st = afterParallel env input' st)
    (hblock : input'.block = input.block) (hlength : (phaseTxs input).length < 2 ^ 32) :
    (parallelPhase env input st).txOutcomes = (parallelPhase env input' st).txOutcomes ∧
      applyWrites st.db.toStateDb (parallelPhase env input st).finalWrites =
        applyWrites st.db.toStateDb (parallelPhase env input' st).finalWrites := by
  refine ⟨?_, congrArg (fun r : Parallel.Progress C S => r.st.db.toStateDb) h⟩
  rw [phaseTxs, length_map] at hlength
  have hlen (i : BlockInput) (hi : i.block = input.block) :
      (parallelPhase env i st).txOutcomes.length ≤
        ((parallelTxs i.block.transactions).map Prod.fst).length := by
    have hreports : ReportsAll env.toExecEnv ((parallelTxs i.block.transactions).map Prod.snd)
        (parallelPhase env i st).txOutcomes := reportsAll_parallelPhase (fun _ => hi ▸ hlength) st
    have := hreports.length_eq
    simp_all
  have hzip := congrArg (fun r : Parallel.Progress C S => r.indexedOutcomes.map Prod.snd) h
  simp only [afterParallel] at hzip
  rwa [map_snd_zip (hlen input rfl), map_snd_zip (hlen input' hblock)] at hzip

end

/-- The paths of Block-STM. Two values of the threshold give the same reports, gas, fees and
database after the parallel phase exactly if they choose the same path, or the paths agree at every
step; and then they give the same block. -/
theorem stm_paths_agree_iff {C S : Type} (env : ChainEnv C S) (st : ChainState C S)
    (input : BlockInput) (threshold : ℕ) (hlength : (phaseTxs input).length + 2 < 2 ^ 32)
    (htorn : WaveState.NoTornRead (programs env.toExecEnv input.cfg.toExecConfig st.db.toStateDb
      input.block.epoch (phaseTxs input)) (phaseTxs input).length input.sched) :
    (afterParallel env input st =
        afterParallel env { input with parallelThreshold := threshold } st ↔
      PathsMatch env st input threshold) ∧
    (PathsMatch env st input threshold → executeBlock env st input =
        executeBlock env st { input with parallelThreshold := threshold }) := by
  have hserial := executeParallel_eq_executeSerial st.blockGasLimit hlength htorn
  have hmatch (h : PathsMatch env st input threshold) : afterParallel env input st =
      afterParallel env { input with parallelThreshold := threshold } st := by
    suffices hphase : parallelPhase env input st =
        parallelPhase env { input with parallelThreshold := threshold } st by
      rw [afterParallel, hphase]
      rfl
    rcases h with hsame | hagree
    · exact if_congr hsame rfl rfl
    · have hpaths := hserial.trans (executeSequential_eq_executeSerial hagree).symm
      calc parallelPhase env input st
          = executeSequential env.toExecEnv input.cfg.toExecConfig st.db.toStateDb
              input.block.epoch (phaseTxs input) :=
            (if_congr Iff.rfl hpaths rfl).trans (ite_self _)
        _ = parallelPhase env { input with parallelThreshold := threshold } st :=
            ((if_congr Iff.rfl hpaths rfl).trans (ite_self _)).symm
  refine ⟨⟨fun h => ?_, hmatch⟩, fun h => ?_⟩
  swap
  · rw [executeBlock, executeTransactions, hmatch h]
    rfl
  obtain ⟨hout, hdb⟩ := parallelPhase_of_afterParallel_eq h rfl (by omega)
  have hoptimistic (t : ℕ) (ht : t ≤ (phaseTxs input).length) :
      parallelPhase env { input with parallelThreshold := t } st = _ := (if_pos ht).trans hserial
  have hsequential (t : ℕ) (ht : ¬ t ≤ (phaseTxs input).length) :
      parallelPhase env { input with parallelThreshold := t } st = _ := if_neg ht
  by_cases hpath : input.parallelThreshold ≤ (phaseTxs input).length
  · by_cases hpath' : threshold ≤ (phaseTxs input).length
    · exact .inl (iff_of_true hpath hpath')
    · rw [hoptimistic _ hpath, hsequential _ hpath'] at hout hdb
      exact .inr (pathsAgree_of_eq hout hdb)
  · by_cases hpath' : threshold ≤ (phaseTxs input).length
    · rw [hsequential _ hpath, hoptimistic _ hpath'] at hout hdb
      exact .inr (pathsAgree_of_eq hout.symm hdb.symm)
    · exact .inl (iff_of_false hpath hpath')

/-- Two transfers give the same block on both paths. -/
theorem stm_paths_agree_transfers :
    let input := freeStmBlock 1 1 1 [.transfer ⟨addressOf 1, addressOf 2, 5, 0⟩,
      .transfer ⟨addressOf 1, addressOf 3, 5, 1⟩]
    executeBlock simpleChain (fundedState 0) input =
      executeBlock simpleChain (fundedState 0) { input with parallelThreshold := 4 } := by
  refine (stm_paths_agree_iff simpleChain (fundedState 0) _ 4 (by decide) ?_).2 (.inr ?_)
  · unfold WaveState.NoTornRead
    decide +kernel
  · unfold PathsAgree
    decide +kernel

def signedStmBlock (threshold : ℕ) (bodies : List TxBody) : BlockInput :=
  let input := freeStmBlock 1 1 threshold bodies
  { input with cfg := { input.cfg with verifySignatures := true } }

/-- Success of the transactions of a block, and the balance of an account after it. -/
def outcomeOf (st : ChainState Unit Unit) (input : BlockInput) (addr : AccountAddress) :
    Option (List Bool × ℕ) :=
  (executeBlock simpleChain st input).toOption.map fun r =>
    (r.1.txOutcomes.map (·.success), (r.2.db.account addr).balance)

/-- A transfer nobody signed is executed on the sequential path only, and only on the optimistic
path does the creator of an object need the deposit. -/
theorem stm_paths_differ :
    let transfer := [TxBody.transfer ⟨addressOf 1, addressOf 2, 5, 0⟩]
    let create := [TxBody.createObject ⟨addressOf 1, addressOf 7, 100, 10, [], none, none⟩]
    outcomeOf (fundedState 0) (signedStmBlock 4 transfer) (addressOf 2) = some ([true], 5) ∧
      outcomeOf (fundedState 0) (signedStmBlock 1 transfer) (addressOf 2) = some ([false], 0) ∧
      outcomeOf (fundedState 0) (freeStmBlock 1 1 4 create) (addressOf 1) = some ([true], 100) ∧
      outcomeOf (fundedState 0) (freeStmBlock 1 1 1 create) (addressOf 1) =
        some ([false], 100) := by
  decide +kernel

end BlockStm

end EvaporChain
