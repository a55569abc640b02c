import EvaporChain.Execution.TxView

/-!
# What a transaction does to the memory

Run on a fixed view of the memory, a transaction reads its own writes first and the view after
them. So it acts like a program on one memory, the view with the writes of its buffer over it: it
charges the fee there, and its body either changes the memory or fails.
-/

namespace EvaporChain

open Core

namespace BlockStm

abbrev Memory := Location → Option ValuePayload

/-! ### Running a computation on a view -/

/-- Result of a computation that reads the memory `mem`, and the view it leaves. -/
def evalOn {α : Type} (mem : Memory) (x : ViewM α) (view : TxView) : α × TxView :=
  (x.run view).eval mem

section

variable {α β ε : Type} (mem : Memory) (view : TxView)

lemma eval_bind (p : Prog Location ValuePayload α) (f : α → Prog Location ValuePayload β) :
    (p.bind f).eval mem = (f (p.eval mem)).eval mem := by
  induction p with
  | ret a => rfl
  | read loc next ih => exact ih (mem loc)

@[simp] lemma evalOn_pure (a : α) : evalOn mem (pure a) view = (a, view) := rfl

@[simp] lemma evalOn_bind (x : ViewM α) (f : α → ViewM β) :
    evalOn mem (x >>= f) view = evalOn mem (f (evalOn mem x view).1) (evalOn mem x view).2 :=
  eval_bind mem (x.run view) _

@[simp] lemma evalOn_get : evalOn mem (get : ViewM TxView) view = (view, view) := rfl

@[simp] lemma evalOn_modify (f : TxView → TxView) :
    evalOn mem (modify f : ViewM Unit) view = ((), f view) := rfl

@[simp] lemma evalOn_readMemory (loc : Location) :
    evalOn mem (readMemory loc) view = (mem loc, view) := rfl

@[simp] lemma evalOn_run_pure (a : α) :
    evalOn mem (pure a : ExceptT ε ViewM α).run view = (.ok a, view) := rfl

@[simp] lemma evalOn_run_lift (x : ViewM α) :
    evalOn mem (liftM x : ExceptT ε ViewM α).run view =
      (.ok (evalOn mem x view).1, (evalOn mem x view).2) :=
  eval_bind mem (x.run view) _

@[simp] lemma evalOn_run_bind (x : ExceptT ε ViewM α) (f : α → ExceptT ε ViewM β) :
    evalOn mem (x >>= f).run view =
      match evalOn mem x.run view with
      | (.ok a, view') => evalOn mem (f a).run view'
      | (.error e, view') => (.error e, view') := by
  change evalOn mem (x.run >>= ExceptT.bindCont f) view = _
  rw [evalOn_bind]
  rcases evalOn mem x.run view with ⟨_ | _, _⟩ <;> rfl

end

/-! ### One memory -/

namespace Memory

variable (db : StateDb) (mem : Memory)

/-- Balance of an account; what nobody wrote is in the base database. -/
def balance (addr : AccountAddress) : ℕ :=
  match mem (.accountBalance addr) with
  | some (.balance n) => n
  | _ => (db.accounts addr).elim 0 (·.balance)

def nonce (addr : AccountAddress) : ℕ :=
  match mem (.accountNonce addr) with
  | some (.nonce n) => n
  | _ => (db.accounts addr).elim 0 (·.nonce)

def object (id : ObjectId) : Option StateObject :=
  match mem (.object id) with
  | some (.object obj) => some obj
  | some .objectDeleted => none
  | _ => db.objects id

def ghost (id : ObjectId) : Option GhostRecord :=
  match mem (.ghost id) with
  | some (.ghost record) => some record
  | some .ghostRemoved => none
  | _ => db.ghosts id

def write (writes : List WriteEntry) : Memory := fun loc => (lastWrite writes loc).or (mem loc)

def put (loc : Location) (value : ValuePayload) : Memory := Function.update mem loc (some value)

def putAccount (addr : AccountAddress) (balance nonce : ℕ) : Memory :=
  (mem.put (.accountBalance addr) (.balance balance)).put (.accountNonce addr) (.nonce nonce)

def putStorage (addr : AccountAddress) (deposit bytes : ℕ) : Memory :=
  (mem.put (.accountStorageDeposit addr) (.storageDeposit deposit)).put
    (.accountStorageBytes addr) (.storageBytes bytes)

@[simp] lemma write_nil : mem.write [] = mem := rfl

lemma write_append (writes writes' : List WriteEntry) :
    mem.write (writes ++ writes') = (mem.write writes).write writes' := by
  funext loc
  simp [write, lastWrite_append, Option.or_assoc]

@[simp] lemma write_cons (e : WriteEntry) (writes : List WriteEntry) :
    mem.write (e :: writes) = (mem.put e.loc e.value).write writes := by
  funext loc
  by_cases hloc : loc = e.loc
  · subst hloc
    simp [write, lastWrite, put]
  · simp [write, lastWrite, put, hloc, Ne.symm hloc]

lemma balance_putAccount (addr a : AccountAddress) (balance nonce : ℕ) :
    (mem.putAccount addr balance nonce).balance db a =
      if a = addr then balance else mem.balance db a := by
  by_cases ha : a = addr
  · subst ha
    simp [Memory.balance, putAccount, put]
  · simp [Memory.balance, putAccount, put, ha]

lemma nonce_putAccount (addr a : AccountAddress) (balance nonce : ℕ) :
    (mem.putAccount addr balance nonce).nonce db a =
      if a = addr then nonce else mem.nonce db a := by
  by_cases ha : a = addr
  · subst ha
    simp [Memory.nonce, putAccount, put]
  · simp [Memory.nonce, putAccount, put, ha]

end Memory

namespace TxView

/-- The memory as a transaction sees it: its own writes over those of others. -/
def seen (view : TxView) (mem : Memory) : Memory := mem.write view.writeBuffer

/-- The local copies are those of the last writes in the buffer. -/
structure Coherent (view : TxView) : Prop where
  balance : ∀ addr, lastWrite view.writeBuffer (.accountBalance addr) =
    (view.localAccounts addr).map fun acct => .balance acct.balance
  nonce : ∀ addr, lastWrite view.writeBuffer (.accountNonce addr) =
    (view.localAccounts addr).map fun acct => .nonce acct.nonce
  object : ∀ id, view.localObjectsDeleted id = false ∧
    lastWrite view.writeBuffer (.object id) = (view.localObjects id).map .object
  ghost : ∀ id, view.localGhostsRemoved id = false ∧ view.localGhosts id = none ∧
    lastWrite view.writeBuffer (.ghost id) = none

variable {view : TxView} (mem : Memory) (db : StateDb)

lemma coherent_new : TxView.new.Coherent :=
  ⟨fun _ => rfl, fun _ => rfl, fun _ => ⟨rfl, rfl⟩, fun _ => ⟨rfl, rfl, rfl⟩⟩

lemma seen_new : TxView.new.seen mem = mem := rfl

section

variable (h : view.Coherent)

include h

lemma Coherent.evalOn_readBalance (addr : AccountAddress) :
    evalOn mem (readBalance db addr) view = ((view.seen mem).balance db addr, view) := by
  have hlast := h.balance addr
  cases hlocal : view.localAccounts addr with
  | some acct =>
    simp [readBalance, readAccountField, hlocal, Memory.balance, seen, Memory.write, hlast]
  | none =>
    simp only [readBalance, readAccountField, evalOn_bind, evalOn_get, hlocal, evalOn_readMemory,
      Memory.balance, seen, Memory.write, hlast]
    rcases mem (.accountBalance addr) with _ | value
    · rfl
    · cases value <;> rfl

lemma Coherent.evalOn_readNonce (addr : AccountAddress) :
    evalOn mem (readNonce db addr) view = ((view.seen mem).nonce db addr, view) := by
  have hlast := h.nonce addr
  cases hlocal : view.localAccounts addr with
  | some acct =>
    simp [readNonce, readAccountField, hlocal, Memory.nonce, seen, Memory.write, hlast]
  | none =>
    simp only [readNonce, readAccountField, evalOn_bind, evalOn_get, hlocal, evalOn_readMemory,
      Memory.nonce, seen, Memory.write, hlast]
    rcases mem (.accountNonce addr) with _ | value
    · rfl
    · cases value <;> rfl

lemma Coherent.evalOn_readObject (id : ObjectId) :
    evalOn mem (readObject db id) view = ((view.seen mem).object db id, view) := by
  obtain ⟨hdeleted, hlast⟩ := h.object id
  cases hlocal : view.localObjects id with
  | some obj =>
    simp [readObject, hdeleted, hlocal, Memory.object, seen, Memory.write, hlast]
  | none =>
    simp only [readObject, Memory.object, seen, Memory.write]
    split <;> simp_all

lemma Coherent.evalOn_readGhost (id : ObjectId) :
    evalOn mem (readGhost db id) view = ((view.seen mem).ghost db id, view) := by
  obtain ⟨hremoved, hlocal, hlast⟩ := h.ghost id
  simp only [readGhost, Memory.ghost, seen, Memory.write]
  split <;> simp_all

end

/-! ### Writes -/

lemma seen_writeAccount (view : TxView) (addr : AccountAddress) (balance nonce epoch : ℕ) :
    (evalOn mem (writeAccount addr balance nonce epoch) view).2.seen mem =
      (view.seen mem).putAccount addr balance nonce := by
  simp [writeAccount, seen, Memory.write_append, Memory.putAccount]

lemma Coherent.after_writeAccount (h : view.Coherent) (addr : AccountAddress)
    (balance nonce epoch : ℕ) :
    (evalOn mem (writeAccount addr balance nonce epoch) view).2.Coherent := by
  refine ⟨fun a => ?_, fun a => ?_, fun id => ?_, fun id => ?_⟩
  · by_cases ha : addr = a
    · subst ha
      simp [writeAccount, lastWrite_append, lastWrite]
    · simp [writeAccount, lastWrite_append, lastWrite, ha, Ne.symm ha, h.balance a]
  · by_cases ha : addr = a
    · subst ha
      simp [writeAccount, lastWrite_append, lastWrite]
    · simp [writeAccount, lastWrite_append, lastWrite, ha, Ne.symm ha, h.nonce a]
  · simpa [writeAccount, lastWrite_append, lastWrite] using h.object id
  · simpa [writeAccount, lastWrite_append, lastWrite] using h.ghost id

variable (view : TxView)

lemma seen_writeStorageFields (addr : AccountAddress) (deposit bytes : ℕ) :
    (evalOn mem (writeStorageFields addr deposit bytes) view).2.seen mem =
      (view.seen mem).putStorage addr deposit bytes := by
  simp [writeStorageFields, seen, Memory.write_append, Memory.putStorage]

lemma seen_writeObject (obj : StateObject) :
    (evalOn mem (writeObject obj) view).2.seen mem =
      (view.seen mem).put (.object obj.id) (.object obj) := by
  simp [writeObject, seen, Memory.write_append]

lemma seen_removeGhost (id : ObjectId) :
    (evalOn mem (removeGhost id) view).2.seen mem =
      (view.seen mem).put (.ghost id) .ghostRemoved := by
  simp [removeGhost, seen, Memory.write_append]

end TxView

/-! ### Bodies -/

namespace Memory

variable (db : StateDb) (epoch : ℕ) (mem : Memory)

/-- The zero address pays out without a nonce. -/
def transfer (t : TransferTx) : Option Memory :=
  let senderNonce := mem.nonce db t.fromAddr
  let balance := mem.balance db
  if t.fromAddr ≠ t.toAddr ∧ t.amount ≠ 0 ∧
      (t.fromAddr ≠ Hash.zero → senderNonce = t.nonce ∧ senderNonce + 1 ≤ u64Max) ∧
      t.amount ≤ balance t.fromAddr ∧ balance t.toAddr + t.amount ≤ u64Max then
    some ((mem.putAccount t.fromAddr (balance t.fromAddr - t.amount)
      (if t.fromAddr = Hash.zero then senderNonce else senderNonce + 1)).putAccount t.toAddr
        (balance t.toAddr + t.amount) (mem.nonce db t.toAddr))
  else none

lemma transfer_eq {t : TransferTx} (hself : t.fromAddr ≠ t.toAddr) (hamount : t.amount ≠ 0)
    (hnonce : t.fromAddr ≠ Hash.zero →
      mem.nonce db t.fromAddr = t.nonce ∧ mem.nonce db t.fromAddr + 1 ≤ u64Max)
    (hbalance : t.amount ≤ mem.balance db t.fromAddr) :
    mem.transfer db t = if mem.balance db t.toAddr + t.amount ≤ u64Max then
      some ((mem.putAccount t.fromAddr (mem.balance db t.fromAddr - t.amount)
        (if t.fromAddr = Hash.zero then mem.nonce db t.fromAddr
        else mem.nonce db t.fromAddr + 1)).putAccount t.toAddr
          (mem.balance db t.toAddr + t.amount) (mem.nonce db t.toAddr))
      else none := by
  exact if_congr ⟨fun hok => hok.2.2.2.2, fun hok => ⟨hself, hamount, hnonce, hbalance, hok⟩⟩
    rfl rfl

/-- The deposit replaces what the account had locked before. -/
def createObject (t : CreateObjectTx) : Option Memory :=
  let balance := mem.balance db t.creator
  if (mem.object db t.objectId).isNone ∧ minStorageDeposit ≤ balance then
    some (((mem.putAccount t.creator (balance - minStorageDeposit)
      (mem.nonce db t.creator)).putStorage t.creator (satAdd 0 minStorageDeposit)
        (satAdd 0 (satAdd 97 t.data.length))).put (.object t.objectId) (.object (t.object epoch)))
  else none

def refresh (t : RefreshTx) : Option Memory :=
  match mem.object db t.objectId with
  | some obj => some (mem.put (.object obj.id) (.object (refreshed epoch t.energyDeposit obj)))
  | none =>
    (mem.ghost db t.objectId).map fun ghost =>
      (mem.put (.object ghost.objectId) (.object (revived epoch t.energyDeposit ghost))).put
        (.ghost t.objectId) .ghostRemoved

def validatorStake (t : ValidatorStakeTx) : Option Memory :=
  let balance := mem.balance db t.validatorAddress
  let nonce := mem.nonce db t.validatorAddress
  if t.stakeAmount ≠ 0 ∧ nonce = t.nonce ∧ t.stakeAmount ≤ balance ∧ nonce + 1 ≤ u64Max then
    some (mem.putAccount t.validatorAddress (balance - t.stakeAmount) (nonce + 1))
  else none

def validatorExit (t : ValidatorExitTx) : Option Memory :=
  let nonce := mem.nonce db t.validatorAddress
  if nonce = t.nonce ∧ nonce + 1 ≤ u64Max then
    some (mem.putAccount t.validatorAddress (mem.balance db t.validatorAddress) (nonce + 1))
  else none

/-- The memory after the body of a transaction, unless it fails. -/
def body (tx : Transaction) : Option Memory :=
  match tx.body with
  | .transfer t => mem.transfer db t
  | .createObject t => mem.createObject db epoch t
  | .refresh t => mem.refresh db epoch t
  | .validatorStake t => mem.validatorStake db t
  | .validatorExit t => mem.validatorExit db t
  | .blob t => match checkBlob t with
    | .ok () => some mem
    | .error _ => none
  | _ => none

end Memory

/-- A result of running a body is the expected memory, or an error if none is expected. -/
def Leaves (mem : Memory) (r : Except ExecutionError Unit × TxView) : Option Memory → Prop
  | some mem' => r.1 = .ok () ∧ r.2.seen mem = mem'
  | none => ∃ e, r.1 = .error e

variable {r : Except ExecutionError Unit × TxView}

lemma leaves_error {mem : Memory} {expected : Option Memory} {e : ExecutionError}
    (hr : r.1 = .error e) (hnone : expected = none) : Leaves mem r expected := by
  rw [hnone]
  exact ⟨e, hr⟩

lemma leaves_ok {mem mem' : Memory} {expected : Option Memory} (hr : r.1 = .ok ())
    (hsome : expected = some mem') (hseen : r.2.seen mem = mem') : Leaves mem r expected := by
  rw [hsome]
  exact ⟨hr, hseen⟩

lemma evalOn_checkedAdd (mem : Memory) (view : TxView) (a b : ℕ) (error : ExecutionError) :
    evalOn mem (checkedAdd a b error).run view =
      (if a + b ≤ u64Max then .ok (a + b) else .error error, view) := by
  unfold checkedAdd
  split_ifs <;> rfl

namespace TxView.Coherent

variable {view : TxView} (mem : Memory) (db : StateDb) (epoch : ℕ) (h : view.Coherent)

include h

/-- A transfer once the sender is in order. -/
lemma leaves_pay {sender receiver : AccountAddress} (hne : sender ≠ receiver)
    (balance nonce amount : ℕ) (error : ℕ → ExecutionError) :
    Leaves mem (evalOn mem (do
        writeAccount sender balance nonce epoch
        let recvBalance ← readBalance db receiver
        let recvNonce ← readNonce db receiver
        let newRecvBalance ← checkedAdd recvBalance amount (error recvBalance)
        writeAccount receiver newRecvBalance recvNonce epoch : ExecM Unit).run view)
      (if (view.seen mem).balance db receiver + amount ≤ u64Max then
        some (((view.seen mem).putAccount sender balance nonce).putAccount receiver
          ((view.seen mem).balance db receiver + amount) ((view.seen mem).nonce db receiver))
      else none) := by
  have h' := h.after_writeAccount mem sender balance nonce epoch
  simp only [evalOn_run_bind, evalOn_run_lift, h'.evalOn_readBalance, h'.evalOn_readNonce,
    evalOn_checkedAdd, seen_writeAccount, Memory.balance_putAccount, Memory.nonce_putAccount,
    if_neg hne.symm]
  split_ifs with hrecv
  · exact ⟨rfl, by rw [seen_writeAccount, seen_writeAccount]⟩
  · exact ⟨_, rfl⟩

lemma leaves_execTransfer (t : TransferTx) :
    Leaves mem (evalOn mem (execTransfer db epoch t).run view) ((view.seen mem).transfer db t) := by
  unfold execTransfer
  by_cases hself : t.fromAddr = t.toAddr
  · rw [if_pos hself]
    exact leaves_error rfl (if_neg fun hok => hok.1 hself)
  by_cases hamount : t.amount = 0
  · simp only [if_neg hself, if_pos hamount]
    exact leaves_error rfl (if_neg fun hok => hok.2.1 hamount)
  simp only [hself, hamount, if_false, evalOn_run_bind, evalOn_run_lift, h.evalOn_readBalance,
    h.evalOn_readNonce]
  by_cases hnonce : t.fromAddr ≠ Hash.zero ∧ (view.seen mem).nonce db t.fromAddr ≠ t.nonce
  · rw [if_pos hnonce]
    exact leaves_error rfl (if_neg fun hok => hnonce.2 (hok.2.2.1 hnonce.1).1)
  rw [if_neg hnonce]
  by_cases hbalance : t.amount ≤ (view.seen mem).balance db t.fromAddr
  · rw [if_neg (not_lt.mpr hbalance)]
    by_cases hzero : t.fromAddr = Hash.zero
    · rw [if_pos hzero, Memory.transfer_eq db _ hself hamount
        (fun hne => absurd hzero hne) hbalance,
        if_pos hzero]
      exact h.leaves_pay mem db epoch hself _ _ _ _
    · have hnonce' : (view.seen mem).nonce db t.fromAddr = t.nonce := by
        by_contra hne
        exact hnonce ⟨hzero, hne⟩
      rw [if_neg hzero, evalOn_run_bind, evalOn_checkedAdd]
      by_cases hover : (view.seen mem).nonce db t.fromAddr + 1 ≤ u64Max
      · rw [if_pos hover, Memory.transfer_eq db _ hself hamount
          (fun _ => ⟨hnonce', hover⟩) hbalance,
          if_neg hzero]
        exact h.leaves_pay mem db epoch hself _ _ _ _
      · rw [if_neg hover]
        exact leaves_error rfl (if_neg fun hok => hover (hok.2.2.1 hzero).2)
  · rw [if_pos (not_le.mp hbalance)]
    exact leaves_error rfl (if_neg fun hok => hbalance hok.2.2.2.1)

lemma leaves_execCreateObject (t : CreateObjectTx) :
    Leaves mem (evalOn mem (execCreateObject db epoch t).run view)
      ((view.seen mem).createObject db epoch t) := by
  unfold execCreateObject
  simp only [evalOn_run_bind, evalOn_run_lift, h.evalOn_readObject]
  by_cases hobject : ((view.seen mem).object db t.objectId).isSome
  · rw [if_pos hobject]
    exact leaves_error rfl (if_neg fun hok => Option.not_isSome_iff_eq_none.mpr
      (Option.isNone_iff_eq_none.mp hok.1) hobject)
  rw [if_neg hobject]
  simp only [evalOn_run_bind, evalOn_run_lift, h.evalOn_readBalance]
  by_cases hbalance : (view.seen mem).balance db t.creator < minStorageDeposit
  · rw [if_pos hbalance]
    exact leaves_error rfl (if_neg fun hok => hbalance.not_ge hok.2)
  rw [if_neg hbalance]
  simp only [evalOn_run_bind, evalOn_run_lift, h.evalOn_readNonce]
  refine leaves_ok rfl (if_pos ⟨by simpa using hobject, not_lt.mp hbalance⟩) ?_
  -- the local copy written just before has no storage fields
  have hlocal (field : Account → ℕ) (loc : Location) (payload : ValuePayload → Option ℕ)
      (balance nonce : ℕ) :
      evalOn mem (readAccountField db t.creator loc field payload)
          (evalOn mem (writeAccount t.creator balance nonce epoch) view).2 =
        (field { Account.empty t.creator with
            balance := balance, nonce := nonce, lastTouchedEpoch := epoch },
          (evalOn mem (writeAccount t.creator balance nonce epoch) view).2) :=
    by simp [readAccountField, writeAccount]
  simp only [readStorageDeposit, readStorageBytes, hlocal, seen_writeObject,
    seen_writeStorageFields, seen_writeAccount]
  rfl

lemma leaves_execRefresh (t : RefreshTx) :
    Leaves mem (evalOn mem (execRefresh db epoch t).run view)
      ((view.seen mem).refresh db epoch t) := by
  unfold execRefresh
  simp only [evalOn_run_bind, evalOn_run_lift, h.evalOn_readObject]
  cases hobject : (view.seen mem).object db t.objectId with
  | some obj =>
    refine leaves_ok rfl (by rw [Memory.refresh, hobject]) ?_
    rw [evalOn_run_lift, seen_writeObject]
    unfold refreshed
    split_ifs <;> rfl
  | none =>
    simp only [evalOn_run_bind, evalOn_run_lift, h.evalOn_readGhost]
    cases hghost : (view.seen mem).ghost db t.objectId with
    | some ghost =>
      refine leaves_ok rfl (by rw [Memory.refresh, hobject, hghost]; rfl) ?_
      simp only [evalOn_run_bind, evalOn_run_lift, seen_removeGhost, seen_writeObject]
      rfl
    | none => exact leaves_error rfl (by rw [Memory.refresh, hobject, hghost]; rfl)

lemma leaves_execValidatorStake (t : ValidatorStakeTx) :
    Leaves mem (evalOn mem (execValidatorStake db epoch t).run view)
      ((view.seen mem).validatorStake db t) := by
  unfold execValidatorStake
  by_cases hamount : t.stakeAmount = 0
  · rw [if_pos hamount]
    exact leaves_error rfl (if_neg fun hok => hok.1 hamount)
  simp only [hamount, if_false, evalOn_run_bind, evalOn_run_lift, h.evalOn_readBalance,
    h.evalOn_readNonce]
  by_cases hnonce : (view.seen mem).nonce db t.validatorAddress ≠ t.nonce
  · rw [if_pos hnonce]
    exact leaves_error rfl (if_neg fun hok => hnonce hok.2.1)
  rw [if_neg hnonce]
  by_cases hbalance : (view.seen mem).balance db t.validatorAddress < t.stakeAmount
  · rw [if_pos hbalance]
    exact leaves_error rfl (if_neg fun hok => hbalance.not_ge hok.2.2.1)
  rw [if_neg hbalance, evalOn_run_bind, evalOn_checkedAdd]
  by_cases hover : (view.seen mem).nonce db t.validatorAddress + 1 ≤ u64Max
  · rw [if_pos hover]
    exact leaves_ok rfl (if_pos ⟨hamount, not_not.mp hnonce, not_lt.mp hbalance, hover⟩)
      (seen_writeAccount ..)
  · rw [if_neg hover]
    exact leaves_error rfl (if_neg fun hok => hover hok.2.2.2)

lemma leaves_execValidatorExit (t : ValidatorExitTx) :
    Leaves mem (evalOn mem (execValidatorExit db epoch t).run view)
      ((view.seen mem).validatorExit db t) := by
  unfold execValidatorExit
  simp only [evalOn_run_bind, evalOn_run_lift, h.evalOn_readBalance, h.evalOn_readNonce]
  by_cases hnonce : (view.seen mem).nonce db t.validatorAddress ≠ t.nonce
  · rw [if_pos hnonce]
    exact leaves_error rfl (if_neg fun hok => hnonce hok.1)
  rw [if_neg hnonce, evalOn_run_bind, evalOn_checkedAdd]
  by_cases hover : (view.seen mem).nonce db t.validatorAddress + 1 ≤ u64Max
  · rw [if_pos hover]
    exact leaves_ok rfl (if_pos ⟨not_not.mp hnonce, hover⟩) (seen_writeAccount ..)
  · rw [if_neg hover]
    exact leaves_error rfl (if_neg fun hok => hover hok.2)

lemma leaves_execBody (tx : Transaction) :
    Leaves mem (evalOn mem (execBody db epoch tx).run view) ((view.seen mem).body db epoch tx) := by
  unfold execBody Memory.body
  cases tx.body with
  | transfer t => exact h.leaves_execTransfer mem db epoch t
  | createObject t => exact h.leaves_execCreateObject mem db epoch t
  | refresh t => exact h.leaves_execRefresh mem db epoch t
  | validatorStake t => exact h.leaves_execValidatorStake mem db epoch t
  | validatorExit t => exact h.leaves_execValidatorExit mem db epoch t
  | blob t =>
    dsimp only
    cases hblob : checkBlob t with
    | ok => exact ⟨rfl, rfl⟩
    | error e => exact ⟨e, rfl⟩
  | _ => exact ⟨_, rfl⟩

end TxView.Coherent

/-! ### Transactions -/

section

variable (env : ExecEnv) (cfg : ExecConfig) (db : StateDb) (epoch : ℕ) (mem : Memory)

/-- Fee of a transaction and the memory after the sender paid it, or why there is none. -/
def Memory.charge (tx : Transaction) : Except String (ℕ × Memory) :=
  match cfg.feeController with
  | none => .ok (0, mem)
  | some fc =>
    let totalTxFee := fc.computeGasFee (estimateGas tx) 0 + fc.extraFee env tx
    if u64Max < totalTxFee then .error "fee overflow"
    else match tx.sender with
      | none => .ok (totalTxFee, mem)
      | some sender =>
        let balance := mem.balance db sender
        if balance < totalTxFee then
          .error s!"insufficient balance for gas: {balance}/{totalTxFee}"
        else .ok (totalTxFee, mem.putAccount sender (balance - totalTxFee) (mem.nonce db sender))

lemma evalOn_deductFee (tx : Transaction) :
    match mem.charge env cfg db tx with
    | .error e => evalOn mem (deductFee env cfg db epoch tx (estimateGas tx)).run .new =
        (.error (.failed 0 (some e)), .new)
    | .ok (txFee, charged) => ∃ view : TxView, view.Coherent ∧ view.seen mem = charged ∧
        evalOn mem (deductFee env cfg db epoch tx (estimateGas tx)).run .new =
          (.ok txFee, view) := by
  have hnew := TxView.coherent_new
  unfold deductFee Memory.charge
  cases cfg.feeController with
  | none => exact ⟨.new, hnew, rfl, rfl⟩
  | some fc =>
    dsimp only
    by_cases hover : u64Max < fc.computeGasFee (estimateGas tx) 0 + fc.extraFee env tx
    · rw [if_pos hover, if_pos hover]
      rfl
    rw [if_neg hover, if_neg hover]
    cases tx.sender with
    | none => exact ⟨.new, hnew, rfl, rfl⟩
    | some sender =>
      simp only [evalOn_run_bind, evalOn_run_lift, hnew.evalOn_readBalance, TxView.seen_new]
      by_cases hbalance :
          mem.balance db sender < fc.computeGasFee (estimateGas tx) 0 + fc.extraFee env tx
      · rw [if_pos hbalance, if_pos hbalance]
        rfl
      · rw [if_neg hbalance, if_neg hbalance]
        refine ⟨_, hnew.after_writeAccount mem sender _ _ epoch, TxView.seen_writeAccount .., ?_⟩
        simp only [evalOn_run_bind, evalOn_run_lift, hnew.evalOn_readNonce, TxView.seen_new,
          evalOn_run_pure]

inductive TxRun (mem : Memory) (tx : Transaction) : List WriteEntry × TxExecResult → Prop
  | unsigned {e : ExecutionError}
      (signature : verifyTxSignature env cfg.verifySignatures tx cfg.chainId = .error e) :
      TxRun mem tx ([], .failed 0 (some "signature verification failed"))
  | unpaid {e : String}
      (signature : verifyTxSignature env cfg.verifySignatures tx cfg.chainId = .ok ())
      (charge : mem.charge env cfg db tx = .error e) : TxRun mem tx ([], .failed 0 (some e))
  | failed {txFee : ℕ} {charged : Memory} {writes : List WriteEntry} {e : Option String}
      (signature : verifyTxSignature env cfg.verifySignatures tx cfg.chainId = .ok ())
      (charge : mem.charge env cfg db tx = .ok (txFee, charged))
      (body : charged.body db epoch tx = none) : TxRun mem tx (writes, .failed txFee e)
  | done {txFee : ℕ} {charged mem' : Memory} {writes : List WriteEntry}
      (signature : verifyTxSignature env cfg.verifySignatures tx cfg.chainId = .ok ())
      (charge : mem.charge env cfg db tx = .ok (txFee, charged))
      (body : charged.body db epoch tx = some mem') (writes_eq : mem.write writes = mem') :
      TxRun mem tx (writes, .success (estimateGas tx) txFee)

lemma txRun_eval (tx : Transaction) :
    TxRun env cfg db epoch mem tx ((txProgram env cfg db epoch tx).eval mem) := by
  unfold txProgram
  cases hsig : verifyTxSignature env cfg.verifySignatures tx cfg.chainId with
  | error e => exact .unsigned hsig
  | ok =>
    rw [eval_bind]
    change TxRun env cfg db epoch mem tx
      ((evalOn mem (executeTx env cfg db epoch tx) .new).2.writeBuffer,
        (evalOn mem (executeTx env cfg db epoch tx) .new).1)
    have hfee := evalOn_deductFee env cfg db epoch mem tx
    simp only [executeTx, evalOn_bind]
    cases hcharge : mem.charge env cfg db tx with
    | error e =>
      rw [hcharge] at hfee
      rw [hfee]
      exact .unpaid hsig hcharge
    | ok paid =>
      obtain ⟨txFee, charged⟩ := paid
      rw [hcharge] at hfee
      obtain ⟨view, hview, hseen, heval⟩ := hfee
      rw [heval]
      simp only [TxView.checkpointAfterFees, evalOn_bind, evalOn_modify]
      have hview' : { view with feeCheckpoint := view.writeBuffer.length }.Coherent :=
        ⟨hview.balance, hview.nonce, hview.object, hview.ghost⟩
      have hbody := hview'.leaves_execBody mem db epoch tx
      have hseen' : { view with feeCheckpoint := view.writeBuffer.length }.seen mem = charged :=
        hseen
      rw [hseen'] at hbody
      cases hexec : charged.body db epoch tx with
      | none =>
        rw [hexec] at hbody
        obtain ⟨e, he⟩ := hbody
        rw [he]
        exact .failed hsig hcharge hexec
      | some mem' =>
        rw [hexec] at hbody
        rw [hbody.1]
        exact .done hsig hcharge hexec hbody.2

end

end BlockStm

end EvaporChain
