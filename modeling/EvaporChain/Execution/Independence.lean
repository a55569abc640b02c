import EvaporChain.Execution.Partition

/-!
# Independence of partitions

Access keys cover what a transaction reads and writes, so executing a transaction is local to the
cells of its keys. Groups share no key, and running them apart gives what running the whole list as
one partition gives.
-/

namespace EvaporChain

open Core List

namespace Parallel

/-! ### Cells -/

/-- Content of an overlay under an access key. -/
structure Cell where
  account : Option Account
  object : Option StateObject
  ghost : Option GhostRecord
  deleted : Bool
  removed : Bool

def Cell.blank : Cell := ⟨none, none, none, false, false⟩

def Overlay.cell (overlay : Overlay) : AccessKey → Cell
  | .account addr => { Cell.blank with account := overlay.accounts addr }
  | .object id =>
    { Cell.blank with
      object := overlay.objects id
      ghost := overlay.ghosts id
      deleted := overlay.deletedObjects id
      removed := overlay.removedGhosts id }
  | _ => .blank

variable (db : StateDb)

/-- Content of a database under an access key, as an overlay would clone it. -/
def baseCell : AccessKey → Cell
  | .account addr => { Cell.blank with account := db.accounts addr }
  | .object id => { Cell.blank with object := db.objects id, ghost := db.ghosts id }
  | _ => .blank

open Overlay

lemma cell_populateFrom_of_mem {keys : List AccessKey} {k : AccessKey}
    (h : k ∈ keys) : (populateFrom db keys).cell k = baseCell db k := by
  cases k <;> simp [cell, populateFrom, baseCell, h, Cell.blank]

lemma cell_populateFrom_of_not_mem {keys : List AccessKey} {k : AccessKey}
    (h : k ∉ keys) : (populateFrom db keys).cell k = .blank := by
  cases k <;> simp [cell, populateFrom, h, Cell.blank]

/-! ### Locality of the primitives -/

section Primitives

variable {K : Set AccessKey} {addr : AccountAddress} {id : ObjectId}

/-- A computation that reads and writes one cell. -/
lemma isLocal_access {α : Type} {k : AccessKey} (hk : k ∈ K) {m : OverlayM α} {w : Cell → α}
    {g : Cell → Cell} (hvalue : ∀ overlay, (m overlay).1 = w (overlay.cell k))
    (hself : ∀ overlay, (m overlay).2.cell k = g (overlay.cell k))
    (hother : ∀ overlay k', k' ≠ k → (m overlay).2.cell k' = overlay.cell k') :
    Local cell K m where
  frame overlay k' hk' := hother overlay k' fun h => hk' (h ▸ hk)
  value h := by rw [hvalue, hvalue, h hk]
  agree {overlay overlay'} h k' hk' := by
    by_cases heq : k' = k
    · subst heq
      rw [hself, hself, h hk]
    · rw [hother _ _ heq, hother _ _ heq, h hk']

lemma isLocal_getAccount (hK : .account addr ∈ K) : Local cell K (getAccount addr) :=
  isLocal_access hK (w := Cell.account) (g := id) (fun _ => rfl) (fun _ => rfl) fun _ _ _ => rfl

lemma isLocal_getObject (hK : .object id ∈ K) : Local cell K (getObject id) :=
  isLocal_access hK (w := Cell.object) (g := fun c => c) (fun _ => rfl) (fun _ => rfl)
    fun _ _ _ => rfl

lemma isLocal_getGhost (hK : .object id ∈ K) : Local cell K (getGhost id) :=
  isLocal_access hK (w := Cell.ghost) (g := fun c => c) (fun _ => rfl) (fun _ => rfl)
    fun _ _ _ => rfl

lemma isLocal_getOrCreateAccount (hK : .account addr ∈ K) :
    Local cell K (getOrCreateAccount addr) := by
  refine isLocal_access hK (w := fun c => c.account.getD (.empty addr))
    (g := fun c => { c with account := some (c.account.getD (.empty addr)) }) ?_ ?_ ?_
  · intro overlay
    cases hacct : overlay.accounts addr <;> simp [getOrCreateAccount, cell, hacct]
  · intro overlay
    cases hacct : overlay.accounts addr <;>
      simp [getOrCreateAccount, cell, hacct, StateDb.putAccount, Account.empty]
  · intro overlay k hk
    cases hacct : overlay.accounts addr with
    | some acct => simp [getOrCreateAccount, hacct]
    | none =>
      cases k with
      | account addr' =>
        have hne : addr' ≠ addr := fun h => hk (congrArg _ h)
        simp [getOrCreateAccount, hacct, cell, StateDb.putAccount, Account.empty, hne]
      | _ => simp [getOrCreateAccount, hacct, cell, StateDb.putAccount]

lemma isLocal_modifyAccount (hK : .account addr ∈ K) {f : Account → Account}
    (hf : ∀ acct, (f acct).address = acct.address) :
    Local cell K (modifyAccount addr f hf) := by
  refine isLocal_access hK (w := fun _ => ()) (g := fun c => { c with account := c.account.map f })
    (fun _ => rfl) ?_ ?_
  · simp [modifyAccount, cell, StateDb.modifyAccount]
  · intro overlay k hk
    cases k with
    | account addr' =>
      have hne : addr' ≠ addr := fun h => hk (congrArg _ h)
      simp [modifyAccount, cell, StateDb.modifyAccount, hne]
    | _ => rfl

lemma isLocal_modifyObject (hK : .object id ∈ K) {f : StateObject → StateObject}
    (hf : ∀ obj, (f obj).id = obj.id) : Local cell K (modifyObject id f hf) := by
  refine isLocal_access hK (w := fun _ => ()) (g := fun c => { c with object := c.object.map f })
    (fun _ => rfl) ?_ ?_
  · simp [modifyObject, cell, StateDb.modifyObject]
  · intro overlay k hk
    cases k with
    | object id' =>
      have hne : id' ≠ id := fun h => hk (congrArg _ h)
      simp [modifyObject, cell, StateDb.modifyObject, hne]
    | _ => rfl

lemma isLocal_putObject {obj : StateObject} (hK : .object obj.id ∈ K) :
    Local cell K (putObject obj) := by
  refine isLocal_access hK (w := fun _ => ()) (g := fun c => { c with object := some obj })
    (fun _ => rfl) ?_ ?_
  · simp [putObject, cell, StateDb.putObject]
  · intro overlay k hk
    cases k with
    | object id' =>
      have hne : id' ≠ obj.id := fun h => hk (congrArg _ h)
      simp [putObject, cell, StateDb.putObject, hne]
    | _ => rfl

lemma isLocal_removeGhost (hK : .object id ∈ K) : Local cell K (removeGhost id) := by
  refine isLocal_access hK (w := fun _ => ())
    (g := fun c => { c with ghost := none, removed := true }) (fun _ => rfl) ?_ ?_
  · simp [removeGhost, cell, StateDb.removeGhost]
  · intro overlay k hk
    cases k with
    | object id' =>
      have hne : id' ≠ id := fun h => hk (congrArg _ h)
      simp [removeGhost, cell, StateDb.removeGhost, hne]
    | _ => rfl

end Primitives

/-! ### Locality of transactions -/

section Transactions

variable {K : Set AccessKey} (epoch : ℕ)

lemma isLocal_execTransfer {tx : TransferTx} (hfrom : .account tx.fromAddr ∈ K)
    (hto : .account tx.toAddr ∈ K) : Local cell K (execTransfer epoch tx).run := by
  refine Local.ite (.throw _) (.ite (.throw _) (.andThen (.lift (isLocal_getOrCreateAccount hfrom))
    fun sender => ?_))
  refine Local.ite (.throw _) (.ite (.throw _) ?_)
  refine .andThen (.lift (isLocal_modifyAccount hfrom _)) fun _ => ?_
  refine .andThen (.lift (isLocal_getOrCreateAccount hto)) fun _ => ?_
  exact .lift (isLocal_modifyAccount hto _)

lemma isLocal_execCreateObject {tx : CreateObjectTx} (hcreator : .account tx.creator ∈ K)
    (hobject : .object tx.objectId ∈ K) : Local cell K (execCreateObject epoch tx).run := by
  refine .andThen (.lift (isLocal_getObject hobject)) fun existing => ?_
  refine Local.ite (.throw _) (.andThen (.lift (isLocal_getOrCreateAccount hcreator))
    fun creator => ?_)
  refine Local.ite (.throw _) (.andThen (.lift (isLocal_modifyAccount hcreator _)) fun _ => ?_)
  exact .lift (isLocal_putObject hobject)

lemma isLocal_refresh {tx : RefreshTx} (hobject : .object tx.objectId ∈ K) (obj : StateObject) :
    Local cell K (refresh epoch tx obj).run := by
  refine Local.ite (.throw _) ?_
  cases obj.state with
  | active | resurrected | grace => exact .lift (isLocal_modifyObject hobject _)
  | ghost => exact .throw _

lemma isLocal_resurrect {tx : RefreshTx} (hobject : .object tx.objectId ∈ K) (ghost : GhostRecord) :
    Local cell K (resurrect epoch tx ghost).run := by
  refine Local.ite (.throw _) ?_
  cases ghost.originalData with
  | none => exact .throw _
  | some data =>
    refine .andThen (.lift (isLocal_removeGhost hobject)) fun _ => ?_
    exact .lift (isLocal_putObject hobject)

lemma isLocal_execRefresh {tx : RefreshTx} (hobject : .object tx.objectId ∈ K) :
    Local cell K (execRefresh epoch tx).run := by
  refine .andThen (.lift (isLocal_getObject hobject)) fun existing => ?_
  cases existing with
  | some obj => exact isLocal_refresh epoch hobject obj
  | none =>
    refine .andThen (.lift (isLocal_getGhost hobject)) fun ghost => ?_
    cases ghost with
    | some ghost => exact isLocal_resurrect epoch hobject ghost
    | none => exact .throw _

lemma isLocal_execValidatorStake {tx : ValidatorStakeTx} (h : .account tx.validatorAddress ∈ K) :
    Local cell K (execValidatorStake epoch tx).run := by
  refine Local.ite (.throw _) (.andThen (.lift (isLocal_getOrCreateAccount h)) fun sender => ?_)
  refine Local.ite (.throw _) (.ite (.throw _) ?_)
  exact .lift (isLocal_modifyAccount h _)

lemma isLocal_execValidatorExit {tx : ValidatorExitTx} (h : .account tx.validatorAddress ∈ K) :
    Local cell K (execValidatorExit epoch tx).run := by
  refine .andThen (.lift (isLocal_getOrCreateAccount h)) fun sender => ?_
  refine Local.ite (.throw _) (.andThen (.lift (isLocal_modifyAccount h _)) fun _ => ?_)
  exact .throw _

def keysOf (tx : Transaction) : Set AccessKey := {k | k ∈ extractAccessKeys tx}

lemma isLocal_execBody (tx : Transaction) :
    Local cell (keysOf tx) (execBody epoch tx).run := by
  rw [execBody]
  cases hbody : tx.body with
  | transfer tx =>
    exact isLocal_execTransfer epoch (by simp [keysOf, extractAccessKeys, hbody])
      (by simp [keysOf, extractAccessKeys, hbody])
  | createObject tx =>
    exact isLocal_execCreateObject epoch (by simp [keysOf, extractAccessKeys, hbody])
      (by simp [keysOf, extractAccessKeys, hbody])
  | refresh tx => exact isLocal_execRefresh epoch (by simp [keysOf, extractAccessKeys, hbody])
  | validatorStake tx =>
    exact isLocal_execValidatorStake epoch (by simp [keysOf, extractAccessKeys, hbody])
  | validatorExit tx =>
    exact isLocal_execValidatorExit epoch (by simp [keysOf, extractAccessKeys, hbody])
  | blob tx => exact .pure _
  | _ => exact .throw _

/-- The sender of a transaction is among its keys. -/
lemma account_sender_mem {tx : Transaction} {addr : AccountAddress} (h : tx.sender = some addr) :
    .account addr ∈ keysOf tx := by
  cases hbody : tx.body with
  | userOp op =>
    rw [Transaction.sender] at h
    cases hpaymaster : op.paymaster <;>
      simp_all [keysOf, extractAccessKeys]
  | _ => simp_all [Transaction.sender, keysOf, extractAccessKeys]

section

variable (env : ExecEnv) (cfg : ExecConfig)

section

variable (tx : Transaction)

lemma isLocal_deductFee (txGas : ℕ) :
    Local cell (keysOf tx) (deductFee env cfg epoch tx txGas) := by
  rw [deductFee]
  cases cfg.feeController with
  | none => exact .pure _
  | some fc =>
    cases hsender : tx.sender with
    | none => exact .pure _
    | some addr =>
      refine .bind (isLocal_getOrCreateAccount (account_sender_mem hsender)) fun sender => ?_
      refine Local.ite (.pure _) ?_
      exact .bind (isLocal_modifyAccount (account_sender_mem hsender) _) fun _ => .pure _

lemma isLocal_senderSnapshot :
    Local cell (keysOf tx) (senderSnapshot tx) := by
  rw [senderSnapshot]
  cases hsender : tx.sender with
  | none => exact .pure _
  | some addr => exact .bind (isLocal_getAccount (account_sender_mem hsender)) fun _ => .pure _

lemma isLocal_revertSender (snapshot : Option (ℕ × ℕ)) :
    Local cell (keysOf tx) (revertSender tx snapshot) := by
  unfold revertSender
  split
  · rename_i hsender
    exact isLocal_modifyAccount (account_sender_mem hsender) _
  · exact .pure _

/-- Executing a transaction reads and writes only the cells of its access keys. -/
theorem isLocal_runTx :
    Local cell (keysOf tx) (runTx env cfg epoch tx) := by
  refine .bind (isLocal_deductFee epoch env cfg tx _) fun paid => ?_
  cases paid with
  | error e => exact .pure _
  | ok txFee =>
    refine .bind (isLocal_senderSnapshot tx) fun snapshot => ?_
    refine .bind (isLocal_execBody epoch tx) fun result => ?_
    cases result with
    | ok _ => exact .pure _
    | error e => exact .bind (isLocal_revertSender tx snapshot) fun _ => .pure _

end

/-- How the end of a transaction is reported. -/
def TxResult.outcome (tx : Transaction) : TxResult → TxOutcome
  | .unpaid error => ⟨tx.txHash env, false, some error, 0⟩
  | .done _ => ⟨tx.txHash env, true, none, estimateGas tx⟩
  | .failed _ e => ⟨tx.txHash env, false, some e.toString, estimateGas tx⟩

/-- Execute a transaction, as a partition does that has gas left, and report its outcome. -/
def settle (x : ℕ × Transaction) : OverlayM TxOutcome :=
  match verifyTxSignature env cfg.verifySignatures x.2 cfg.chainId with
  | .error e =>
    let reason := e.toString
    pure ⟨x.2.txHash env, false, some s!"signature: {reason}", 0⟩
  | .ok () => do
    let result ← runTx env cfg epoch x.2
    return result.outcome env x.2

lemma isLocal_settle (x : ℕ × Transaction) :
    Local cell (keysOf x.2) (settle epoch env cfg x) := by
  rw [settle]
  split
  · exact .pure _
  · exact .bind (isLocal_runTx epoch env cfg x.2) fun result => .pure _

/-! ### A partition with enough gas -/

open PartitionResult

/-- With enough gas the next transaction is settled, and its gas is all the budget loses. -/
lemma step_eq_settle {r : PartitionResult} {x : ℕ × Transaction}
    (hgas : estimateGas x.2 ≤ r.gasBudget) :
    (r.step env cfg epoch x).overlay = (settle epoch env cfg x r.overlay).2 ∧
      (r.step env cfg epoch x).txOutcomes =
        r.txOutcomes ++ [(x.1, (settle epoch env cfg x r.overlay).1)] ∧
      r.gasBudget ≤ (r.step env cfg epoch x).gasBudget + estimateGas x.2 := by
  obtain ⟨idx, tx⟩ := x
  simp only [step, settle]
  cases verifyTxSignature env cfg.verifySignatures tx cfg.chainId with
  | error e => exact ⟨rfl, rfl, le_self_add⟩
  | ok u =>
    simp only [if_neg (not_lt.mpr hgas)]
    show _ = (runTx env cfg epoch tx r.overlay).2 ∧
      _ = r.txOutcomes ++ [(idx, (runTx env cfg epoch tx r.overlay).1.outcome env tx)] ∧ _
    obtain ⟨result, overlay⟩ := runTx env cfg epoch tx r.overlay
    cases result with
    | unpaid error | failed fee e => exact ⟨rfl, rfl, le_self_add⟩
    | done fee => exact ⟨rfl, rfl, Nat.le_add_of_sub_le le_rfl⟩

/-- A partition with enough gas settles its transactions in order. -/
lemma foldl_step_eq_runAll (l : List (ℕ × Transaction)) {r : PartitionResult}
    (hgas : (l.map fun x => estimateGas x.2).sum ≤ r.gasBudget) :
    (l.foldl (step env cfg epoch) r).overlay = (runAll (settle epoch env cfg) l r.overlay).2 ∧
      (l.foldl (step env cfg epoch) r).txOutcomes = r.txOutcomes ++
        (runAll (settle epoch env cfg) l r.overlay).1.map fun y => (y.1.1, y.2) := by
  induction l generalizing r with
  | nil => exact ⟨rfl, (append_nil _).symm⟩
  | cons x l ih =>
    rw [map_cons, sum_cons] at hgas
    obtain ⟨hoverlay, houtcomes, hbudget⟩ :=
      step_eq_settle epoch env cfg (r := r) (x := x) (by omega)
    obtain ⟨hoverlay', houtcomes'⟩ := @ih (r.step env cfg epoch x) (by omega)
    rw [hoverlay] at hoverlay' houtcomes'
    refine ⟨hoverlay', ?_⟩
    rw [foldl_cons, houtcomes', houtcomes, append_assoc]
    rfl

end

end Transactions

/-! ### Running the groups apart -/

lemma enumerate_fst_lt {txs : List Transaction} {x : ℕ × Transaction} (h : x ∈ enumerate txs) :
    x.1 < (enumerate txs).length := by
  obtain ⟨⟨tx, i⟩, hmem, rfl⟩ := List.mem_map.mp h
  have hlt := snd_lt_of_mem_zipIdx hmem
  simpa [enumerate] using hlt

def rootOf (txs : List Transaction) (x : ℕ × Transaction) : ℕ :=
  (connect ((enumerate txs).map fun x => (x.1, extractAccessKeys x.2))).rootD x.1

lemma partitionTransactions_eq (txs : List Transaction) :
    ∃ rs : List ℕ, rs.Nodup ∧ (∀ x ∈ enumerate txs, rootOf txs x ∈ rs) ∧
      partitionTransactions txs = rs.map fun r => (enumerate txs).filter (rootOf txs · = r) :=
  groupByRoot_eq _ _

/-- Transactions of different groups share no access key. -/
lemma disjoint_keysOf {txs : List Transaction} {x y : ℕ × Transaction} (hx : x ∈ enumerate txs)
    (hy : y ∈ enumerate txs) (hne : rootOf txs x ≠ rootOf txs y) :
    Disjoint (keysOf x.2) (keysOf y.2) := by
  rw [Set.disjoint_left]
  intro k hkx hky
  refine hne (rootD_connect_eq ?_ (mem_map_of_mem hx) (mem_map_of_mem hy) hkx hky)
  intro item hitem
  obtain ⟨z, hz, rfl⟩ := List.mem_map.mp hitem
  simpa using enumerate_fst_lt hz

def overlayFor (group : List (ℕ × Transaction)) : Overlay :=
  .populateFrom db (group.flatMap fun x => extractAccessKeys x.2)

lemma separated (env : ExecEnv) (cfg : ExecConfig) (db : StateDb) (epoch : ℕ)
    (txs : List Transaction) :
    Separated cell (fun x => keysOf x.2) (settle epoch env cfg) (enumerate txs) (rootOf txs)
      (overlayFor db) (baseCell db) .blank where
  isLocal x _ := isLocal_settle epoch env cfg x
  disjoint _ hx _ hy hne := disjoint_keysOf hx hy hne
  load_of_mem l x k hx hk :=
    cell_populateFrom_of_mem db (List.mem_flatMap.mpr ⟨x, hx, hk⟩)
  load_of_not_mem l k hk := by
    apply cell_populateFrom_of_not_mem
    intro hmem
    obtain ⟨x, hx, hkx⟩ := List.mem_flatMap.mp hmem
    exact hk x hx hkx

/-- Accounts, objects and ghosts of a database under an access key. -/
def look : AccessKey → Option Account × Option StateObject × Option GhostRecord
  | .account addr => (db.accounts addr, none, none)
  | .object id => (none, db.objects id, db.ghosts id)
  | _ => (none, none, none)

lemma eq_of_look {db db' : StateDb} (h : ∀ k, look db k = look db' k) : db = db' := by
  ext1
  · funext addr
    exact congrArg Prod.fst (h (.account addr))
  · funext id
    exact congrArg (fun x => x.2.1) (h (.object id))
  · funext id
    exact congrArg (fun x => x.2.2) (h (.object id))

/-- What merging makes of the content under a key. -/
def Cell.mergeInto (c : Cell) (x : Option Account × Option StateObject × Option GhostRecord) :
    Option Account × Option StateObject × Option GhostRecord :=
  (c.account.or x.1, c.object.or (if c.deleted then none else x.2.1),
    c.ghost.or (if c.removed then none else x.2.2))

lemma look_mergeOverlay (overlay : Overlay) (k : AccessKey) :
    look (mergeOverlay db overlay) k = (overlay.cell k).mergeInto (look db k) := by
  cases k <;> rfl

lemma executeGroup_eq (env : ExecEnv) (cfg : ExecConfig) (db : StateDb) (epoch : ℕ)
    {group : List (ℕ × Transaction)} (hgas : (group.map fun x => estimateGas x.2).sum ≤ u64Max) :
    (executeGroup env cfg epoch db group).overlay =
        (runAll (settle epoch env cfg) group (overlayFor db group)).2 ∧
      (executeGroup env cfg epoch db group).txOutcomes =
        (runAll (settle epoch env cfg) group (overlayFor db group)).1.map fun y => (y.1.1, y.2) :=
  foldl_step_eq_runAll epoch env cfg group hgas

def createFor (b : UInt8) (data : Bytes) : Transaction where
  body := .createObject ⟨addressOf b, addressOf b, 1, 1, data, none, none⟩
  signatureField := none
  publicKeyField := none
  rest := []

/-- Two accounts that can pay the storage deposit. -/
def creatorsDb : StateDb :=
  (StateDb.empty.putAccount { Account.empty (addressOf 1) with balance := 1000 }).putAccount
    { Account.empty (addressOf 2) with balance := 1000 }

def noFees : ExecConfig := ⟨false, none, []⟩

/-- Partition independence. With gas estimates that sum up to a `u64`, executing the groups of a
list of transactions on their own overlays and merging the overlays, in any order, gives the
outcomes and the database of executing the whole list as one partition. Only lists of
petabytes have larger estimates: with more than `10 ^ 14` transactions, guards and notes, or more
than `4 * 10 ^ 16` bytes of data. -/
theorem partition_independent (env : ExecEnv) (cfg : ExecConfig) (db : StateDb) (epoch : ℕ)
    (txs : List Transaction) (hgas : (txs.map estimateGas).sum ≤ u64Max)
    (order : List (List (ℕ × Transaction))) (horder : order.Perm (partitionTransactions txs)) :
    (order.flatMap fun group => (executeGroup env cfg epoch db group).txOutcomes).Perm
        (executeGroup env cfg epoch db (enumerate txs)).txOutcomes ∧
      (order.map fun group => (executeGroup env cfg epoch db group).overlay).foldl mergeOverlay db =
        mergeOverlay db (executeGroup env cfg epoch db (enumerate txs)).overlay := by
  have hsep := separated env cfg db epoch txs
  obtain ⟨rs, hnodup, hmem, hgroups⟩ := partitionTransactions_eq txs
  rw [hgroups] at horder
  obtain ⟨rs', hperm, rfl⟩ := exists_perm_of_perm_map horder
  have hnodup' := hperm.nodup_iff.mpr hnodup
  have hmem' : ∀ x ∈ enumerate txs, rootOf txs x ∈ rs' := fun x hx => hperm.mem_iff.mpr (hmem x hx)
  have hsum : ((enumerate txs).map fun x => estimateGas x.2).sum ≤ u64Max := by
    rwa [enumerate, map_map, show (fun x => estimateGas x.2) ∘ Prod.swap =
      estimateGas ∘ Prod.fst from rfl, ← map_map, zipIdx_map_fst]
  have hgroup (r : ℕ) : (((enumerate txs).filter (rootOf txs · = r)).map
      fun x => estimateGas x.2).sum ≤ u64Max :=
    (((filter_sublist).map _).sum_le_sum fun _ _ => Nat.zero_le _).trans hsum
  obtain ⟨hwhole, houtcomes⟩ := executeGroup_eq env cfg db epoch hsum
  constructor
  · rw [houtcomes, flatMap_map]
    have hresults := (hsep.perm_results hnodup' hmem').map fun y => (y.1.1, y.2)
    rw [map_flatMap] at hresults
    refine (List.Perm.of_eq (flatMap_congr fun r _ => ?_)).trans hresults
    exact (executeGroup_eq env cfg db epoch (hgroup r)).2
  · rw [hwhole, map_map]
    apply eq_of_look
    intro k
    rw [← hsep.look_merge look_mergeOverlay (fun _ => rfl) hnodup' hmem' db k]
    refine congrArg (fun overlays => look (List.foldl mergeOverlay db overlays) k)
      (map_congr_left fun r _ => ?_)
    exact (executeGroup_eq env cfg db epoch (hgroup r)).1

theorem partition_independent_createFor :
    (executeGroup plainEnv noFees 0 creatorsDb
      (enumerate [createFor 1 [], createFor 2 []])).txOutcomes.Perm
        ((partitionTransactions [createFor 1 [], createFor 2 []]).flatMap fun group =>
          (executeGroup plainEnv noFees 0 creatorsDb group).txOutcomes) :=
  (partition_independent plainEnv noFees creatorsDb 0 [createFor 1 [], createFor 2 []]
    (by decide) _ (.refl _)).1.symm

/-! ### More gas than a budget holds -/

/-- Whether the transactions at the given positions succeeded. -/
def successes (outcomes : List (ℕ × TxOutcome)) : List (ℕ × Bool) :=
  outcomes.map fun x => (x.1, x.2.success)

lemma partitionTransactions_createFor (data : Bytes) :
    partitionTransactions [createFor 1 data, createFor 2 data] =
      [[(0, createFor 1 data)], [(1, createFor 2 data)]] := by
  have hne : addressOf 1 ≠ addressOf 2 := by decide
  rw [partitionTransactions, groupByRoot, foldl_findD]
  simp [enumerate, connect, addKey, createFor, extractAccessKeys, pushGroup, rootD_singletons,
    hne.symm]

lemma estimateGas_createFor (b : UInt8) {data : Bytes} (hlength : data.length = 5 * 10 ^ 16) :
    estimateGas (createFor b data) = 50000 + 10 ^ 19 := by
  simp [estimateGas, TxBody.gas, createFor, hlength]

section Step
variable {env : ExecEnv} {cfg : ExecConfig} {epoch : ℕ} {r : PartitionResult} {x : ℕ × Transaction}
  (hsig : verifyTxSignature env cfg.verifySignatures x.2 cfg.chainId = .ok ())

include hsig

open PartitionResult

lemma step_of_done {fee : ℕ} (hgas : estimateGas x.2 ≤ r.gasBudget)
    (hrun : (runTx env cfg epoch x.2 r.overlay).1 = .done fee) :
    (r.step env cfg epoch x).gasBudget = r.gasBudget - estimateGas x.2 ∧
      successes (r.step env cfg epoch x).txOutcomes = successes r.txOutcomes ++ [(x.1, true)] := by
  obtain ⟨overlay, hpair⟩ : ∃ overlay, runTx env cfg epoch x.2 r.overlay = (.done fee, overlay) :=
    ⟨_, Prod.ext hrun rfl⟩
  simp [step, hsig, not_lt.mpr hgas, hpair, successes]

variable (epoch) in
lemma step_of_exceeded (hgas : r.gasBudget < estimateGas x.2) :
    successes (r.step env cfg epoch x).txOutcomes = successes r.txOutcomes ++ [(x.1, false)] := by
  simp [step, hsig, hgas, successes, skip]

end Step

/-- Executed as one partition, the second of two creations that take `10 ^ 19` gas each exceeds
the budget; in the groups of the list both succeed. -/
lemma successes_createFor {data : Bytes} (hlength : data.length = 5 * 10 ^ 16) :
    successes ((partitionTransactions [createFor 1 data, createFor 2 data]).flatMap fun group =>
        (executeGroup plainEnv noFees 0 creatorsDb group).txOutcomes) = [(0, true), (1, true)] ∧
      successes (executeGroup plainEnv noFees 0 creatorsDb
        (enumerate [createFor 1 data, createFor 2 data])).txOutcomes = [(0, true), (1, false)] := by
  have hgas (b : UInt8) := estimateGas_createFor b hlength
  have hfits (b : UInt8) : estimateGas (createFor b data) ≤ u64Max := by
    rw [hgas, u64Max]
    norm_num
  have hsig (b : UInt8) :
      verifyTxSignature plainEnv noFees.verifySignatures (createFor b data) noFees.chainId =
        .ok () := rfl
  have hone {i : ℕ} {b : UInt8} (hrun : (runTx plainEnv noFees 0 (createFor b data)
      (overlayFor creatorsDb [(i, createFor b data)])).1 = .done 0) :
      successes (executeGroup plainEnv noFees 0 creatorsDb [(i, createFor b data)]).txOutcomes =
        [(i, true)] := by
    obtain ⟨_, houtcomes⟩ := step_of_done (r := ⟨_, 0, 0, 0, 0, [], u64Max⟩)
      (x := (i, createFor b data)) (hsig b) (hfits b) hrun
    exact houtcomes
  constructor
  · rw [partitionTransactions_createFor]
    have happend (xs ys : List (ℕ × TxOutcome)) :
        successes (xs ++ ys) = successes xs ++ successes ys := map_append
    simp only [flatMap_cons, flatMap_nil, append_nil, happend,
      @hone 0 1 rfl, @hone 1 2 rfl]
    rfl
  · obtain ⟨hbudget, houtcomes⟩ := step_of_done
      (r := ⟨overlayFor creatorsDb [(0, createFor 1 data), (1, createFor 2 data)], 0, 0, 0, 0, [],
        u64Max⟩) (x := (0, createFor 1 data)) (hsig 1) (hfits 1) rfl
    have hexceeded := step_of_exceeded 0 (x := (1, createFor 2 data)) (hsig 2)
      (hbudget.trans_lt (by simp only [hgas, u64Max]; norm_num))
    rw [houtcomes] at hexceeded
    exact hexceeded

/-- With more gas than a budget holds, the groups and the whole partition disagree. -/
theorem partition_dependent :
    ¬ ∀ (env : ExecEnv) (cfg : ExecConfig) (db : StateDb) (epoch : ℕ) (txs : List Transaction)
      (order : List (List (ℕ × Transaction))), order.Perm (partitionTransactions txs) →
      (order.flatMap fun group => (executeGroup env cfg epoch db group).txOutcomes).Perm
          (executeGroup env cfg epoch db (enumerate txs)).txOutcomes ∧
        (order.map fun group => (executeGroup env cfg epoch db group).overlay).foldl
            mergeOverlay db =
          mergeOverlay db (executeGroup env cfg epoch db (enumerate txs)).overlay := by
  intro h
  obtain ⟨data, hlength⟩ : ∃ data : Bytes, data.length = 5 * 10 ^ 16 :=
    ⟨List.replicate (5 * 10 ^ 16) 0, length_replicate⟩
  obtain ⟨hgroups, hwhole⟩ := successes_createFor hlength
  have hperm := (h plainEnv noFees creatorsDb 0 [createFor 1 data, createFor 2 data] _
    (.refl _)).1.map fun x => (x.1, x.2.success)
  rw [← successes, ← successes, hgroups, hwhole] at hperm
  exact absurd hperm (by decide)

end Parallel

end EvaporChain
