import EvaporChain.Execution.Frames

/-!
# The life of an object

An object is created, refreshed, evaporates into a ghost and may be resurrected from it. Evaporation
and resurrection move an id from one map to the other, but a creation looks only at the objects: it
may reuse the id of a ghost, which then is alive and dead.
-/

namespace EvaporChain

open Core Function

variable {C S : Type}

namespace Ledger

def store (db : Ledger) : (ObjectId → Option StateObject) × (ObjectId → Option GhostRecord) :=
  (db.objects, db.ghosts)

lemma apart_store : Ledger.Apart Ledger.store where
  updateAccount _ _ _ := rfl
  putStake _ _ := rfl
  removeStake _ _ := rfl
  putDelegation _ _ := rfl
  removeDelegation _ _ _ := rfl
  vestingSchedules _ _ := rfl
  lastRentEpoch _ _ := rfl

def LivesOnce (db : Ledger) : Prop := ∀ id, db.objects id = none ∨ db.ghosts id = none

namespace LivesOnce

variable {db db' : Ledger} (h : db.LivesOnce)

include h

lemma of_store (hstore : db'.store = db.store) : db'.LivesOnce := by
  intro id
  have hobjects : db'.objects = db.objects := congrArg Prod.fst hstore
  have hghosts : db'.ghosts = db.ghosts := congrArg Prod.snd hstore
  rw [hobjects, hghosts]
  exact h id

/-- An object may be stored where there is no ghost. -/
lemma putObject {obj : StateObject} (hghost : db.ghosts obj.id = none) :
    (db.putObject obj).LivesOnce := by
  intro id
  by_cases hid : id = obj.id
  · exact .inr (hid ▸ hghost)
  · exact (h id).imp_left fun hnone => (update_of_ne hid _ _).trans hnone

/-- An object may be replaced. -/
lemma replaceObject (obj : StateObject) (hobj : (db.objects obj.id).isSome) :
    (db.putObject obj).LivesOnce := by
  apply h.putObject
  refine (h obj.id).resolve_left fun hnone => ?_
  simp [hnone] at hobj

lemma resurrectObject (obj : StateObject) : ((db.removeGhost obj.id).putObject obj).LivesOnce := by
  apply LivesOnce.putObject
  · intro id
    refine (h id).imp_right fun hnone => ?_
    by_cases hid : id = obj.id
    · exact hid ▸ update_self ..
    · exact (update_of_ne hid _ _).trans hnone
  · exact update_self ..

lemma buryObject (ghost : GhostRecord) :
    ((db.deleteObject ghost.objectId).putGhost ghost).LivesOnce := by
  intro id
  by_cases hid : id = ghost.objectId
  · exact .inl (hid ▸ update_self ..)
  · refine (h id).imp (fun hnone => ?_) fun hnone => ?_
    · exact (update_of_ne hid _ _).trans hnone
    · exact (update_of_ne hid _ _).trans hnone

end LivesOnce

end Ledger

/-! ### Evaporation -/

namespace EvaporationResult

variable (env : ChainEnv C S) {r : EvaporationResult}

lemma livesOnce_evaporateObject (epoch : ℕ) (obj : StateObject) (h : r.db.LivesOnce) :
    (r.evaporateObject env epoch obj).db.LivesOnce := by
  have howner : (r.db.adjustAccount obj.owner fun acct =>
      { acct with storageBytes := acct.storageBytes - obj.data.length }).LivesOnce :=
    h.of_store (Ledger.apart_store.adjustAccount ..)
  exact howner.buryObject
    { objectId := obj.id, owner := obj.owner, evaporatedAt := epoch
      dataHash := env.blake3 obj.data, originalData := some obj.data
      mmrPosition := some r.mmrSize, originalHalfLife := some obj.halfLife }

lemma livesOnce_step (gracePeriod epoch : ℕ) (id : ObjectId) (h : r.db.LivesOnce) :
    (r.step env gracePeriod epoch id).db.LivesOnce := by
  unfold step
  split
  · exact h
  · rename_i obj hobj
    have hsome : (r.db.objects obj.id).isSome := by
      rw [r.db.id_eq hobj, hobj]
      rfl
    split
    · exact h
    · have hgrace := h.replaceObject
        { obj with graceEpoch := some (obj.graceEpoch.getD epoch) } hsome
      dsimp only
      split_ifs
      · exact livesOnce_evaporateObject env epoch obj hgrace
      · exact hgrace
    all_goals
      split_ifs
      · exact h.replaceObject { obj with state := .grace, graceEpoch := some epoch, energy := 0 }
          hsome
      · exact h

end EvaporationResult

namespace Simple

variable (env : ChainEnv C S)

/-! ### Transactions -/

def reusesGhost (db : Ledger) : TxBody → Bool
  | .createObject tx => (db.ghosts tx.objectId).isSome
  | _ => false

/-- The transaction fails, or it is no creation under the id of a ghost. -/
def freshTx (input : BlockInput) (r : Progress C S) (tx : Transaction) : Bool :=
  match (runTx env input.cfg.toExecConfig input.block.epoch r.gasUsed tx r.st).1 with
  | .done => !reusesGhost r.st.db tx.body
  | _ => true

/-- The same for what a deferred transaction holds. -/
def freshMatured (epoch : ℕ) (st : ChainState C S) (inner : Bytes) : Bool :=
  match env.decodeTransaction inner, (executeMatured env epoch inner st).1 with
  | .ok tx, .ok () => !reusesGhost st.db tx.body
  | _, _ => true

/-- No object is created in a block under the id of a ghost. -/
def freshBlock (st : ChainState C S) (input : BlockInput) : Bool :=
  (transactionSteps env st input).all (fun x => freshTx env input x.1 x.2) &&
    (maturedSteps env input.block.epoch (atDeferred env input st)).all fun x =>
      freshMatured env input.block.epoch x.1 x.2.2.1

variable {env} {cfg : ExecConfig} {epoch : ℕ}

lemma livesOnce_executeCreateObject {tx : CreateObjectTx} {db : Ledger} (h : db.LivesOnce)
    (hfresh : ∀ db', executeCreateObject epoch tx db = (.ok (), db') →
      db.ghosts tx.objectId = none) : (executeCreateObject epoch tx db).2.LivesOnce := by
  rcases hexec : executeCreateObject epoch tx db with ⟨_ | _, db'⟩
  · exact h.of_store ((executeCreateObject_error hexec).part_eq Ledger.apart_store)
  · have hghost := hfresh db' hexec
    obtain ⟨-, -, rfl⟩ := executeCreateObject_ok hexec
    have hcharged := h.of_store (Ledger.apart_store.updateAccount db tx.creator
      (·.lockDeposit (satAdd 97 tx.data.length) epoch))
    exact hcharged.putObject hghost

lemma livesOnce_executeRefresh (sender : Option AccountAddress) (tx : RefreshTx) {db : Ledger}
    (h : db.LivesOnce) : (executeRefresh epoch sender tx db).2.LivesOnce := by
  rcases hexec : executeRefresh epoch sender tx db with ⟨_ | _, db'⟩
  · exact executeRefresh_error hexec ▸ h
  · obtain ⟨obj, hid, ⟨hsome, rfl⟩ | rfl⟩ := executeRefresh_ok hexec
    · exact h.replaceObject obj (hid ▸ hsome)
    · exact hid ▸ h.resurrectObject obj

lemma store_executeGovernance (valid : String → Except String Unit) (tx : GovernanceTx)
    (db : Ledger) : (executeGovernance epoch valid tx db).2.store = db.store := by
  rcases h : executeGovernance epoch valid tx db with ⟨_ | _, db'⟩
  · rcases executeGovernance_error h with ⟨hfailure, -⟩ | ⟨-, _, _, _, -, -, -, -, rfl⟩
    · exact hfailure.part_eq Ledger.apart_store
    · rfl
  · obtain ⟨-, _, rfl⟩ := executeGovernance_ok h
    rfl

variable {st : ChainState C S} {input : BlockInput}

lemma livesOnce_dispatch {tx : Transaction} {st' : ChainState C S}
    {result : Except ExecutionError Unit} (h : st.db.LivesOnce)
    (hdispatch : dispatch env cfg epoch tx st = (result, st'))
    (hfresh : result = .ok () → reusesGhost st.db tx.body = false) : st'.db.LivesOnce := by
  by_cases hreaches : reachesParts tx.body = false
  · have hstore : (dispatch env cfg epoch tx st).2.db.store = st.db.store :=
      (uses_dispatch hreaches st).part_eq Ledger.apart_store
    rw [hdispatch] at hstore
    exact h.of_store hstore
  · unfold dispatch at hdispatch
    cases hbody : tx.body <;> simp only [hbody, reachesParts, not_true_eq_false] at hreaches
    all_goals
      rw [hbody] at hfresh hdispatch
      obtain ⟨db, hdb, rfl⟩ := onLedger_eq hdispatch
      have hleft := congrArg Prod.snd hdb
      dsimp only at hleft ⊢
      rw [← hleft]
    case createObject c =>
      refine livesOnce_executeCreateObject h fun db' hexec => ?_
      rw [hdb] at hexec
      cases hexec
      simpa [reusesGhost] using hfresh rfl
    case refresh => exact livesOnce_executeRefresh _ _ h
    case governance => exact h.of_store (store_executeGovernance _ _ _)

/-- A transaction that creates nothing under the id of a ghost. -/
lemma livesOnce_step {r : Progress C S} {tx : Transaction} (h : r.st.db.LivesOnce)
    (hfresh : freshTx env input r tx) :
    (r.step env input.cfg.toExecConfig input.block.epoch tx).st.db.LivesOnce := by
  have hfee : (deductFee env input.cfg.toExecConfig input.block.epoch tx r.st.db).2.store =
      r.st.db.store := (writes_deductFee _ _ tx r.st.db).part_eq Ledger.apart_store
  rw [st_step]
  unfold freshTx at hfresh
  rcases hrun : runTx env input.cfg.toExecConfig input.block.epoch r.gasUsed tx r.st with
    ⟨result, st'⟩
  rw [hrun] at hfresh
  cases txRun_of_runTx hrun with
  | refused => exact h
  | unpaid fee =>
    rw [fee] at hfee
    exact h.of_store hfee
  | @failed db e st₁ fee failed =>
    rw [fee] at hfee
    have hdb : db.LivesOnce := h.of_store hfee
    have hst₁ : st₁.db.LivesOnce := livesOnce_dispatch hdb failed nofun
    exact hst₁.of_store ((writes_revertSender ..).part_eq Ledger.apart_store)
  | @done db st₁ fee done =>
    rw [fee] at hfee
    have hdb : db.LivesOnce := h.of_store hfee
    refine livesOnce_dispatch hdb done fun _ => ?_
    -- paying the fee leaves the ghosts alone
    have hghosts : db.ghosts = r.st.db.ghosts := congrArg Prod.snd hfee
    unfold reusesGhost at hfresh ⊢
    rw [hghosts]
    simpa using hfresh

lemma livesOnce_executeMatured {inner : Bytes} (h : st.db.LivesOnce)
    (hfresh : freshMatured env epoch st inner) :
    (executeMatured env epoch inner st).2.db.LivesOnce := by
  unfold freshMatured at hfresh
  unfold executeMatured at hfresh ⊢
  split
  · exact h
  · rename_i tx hdecode
    rw [hdecode] at hfresh
    split
    · exact h.of_store ((uses_executeTransfer _ _).part_eq Ledger.apart_store)
    · rename_i c hbody
      refine livesOnce_executeCreateObject h fun db' hexec => ?_
      simpa [hbody, onLedger, hexec, reusesGhost] using hfresh
    · rwa [db_callContract]
    · rwa [db_callScript]
    · exact h

/-! ### Blocks -/

variable (env)

lemma livesOnce_beginBlock (block : ExecBlock) (h : st.db.LivesOnce) :
    (beginBlock block st).db.LivesOnce := by
  have hkept := (beginBlock_keeps block st).1
  exact h.of_store (Prod.ext (congrArg StateDb.objects hkept) (congrArg StateDb.ghosts hkept))

lemma livesOnce_atDeferred (h : st.db.LivesOnce) (hfresh : freshBlock env st input) :
    (atDeferred env input st).db.LivesOnce := by
  have hsteps := (Bool.and_eq_true_iff.mp hfresh).1
  rw [List.all_eq_true] at hsteps
  have htransactions := run_induction (Progress.step env input.cfg.toExecConfig input.block.epoch)
    (P := fun r _ => r.st.db.LivesOnce) (G := fun r tx => freshTx env input r tx)
    (livesOnce_beginBlock input.block h) (fun _ _ _ hr htx => livesOnce_step hr htx)
    input.block.transactions hsteps
  unfold atDeferred
  rw [db_beforeDeferred]
  exact List.foldlRecOn (motive := fun r : EvaporationResult => r.db.LivesOnce) _ _ htransactions
    fun r hr id _ => EvaporationResult.livesOnce_step env _ _ id hr

/-- A block that creates nothing under the id of a ghost. -/
lemma livesOnce_nextState (h : st.db.LivesOnce) (hfresh : freshBlock env st input) :
    (nextState env st input).db.LivesOnce := by
  have hsteps := (Bool.and_eq_true_iff.mp hfresh).2
  rw [List.all_eq_true] at hsteps
  have hmatured : (afterMatured env input.block.epoch (atDeferred env input st)).db.LivesOnce := by
    refine run_induction
      (fun st (entry : AccountAddress × Bytes × ℕ) =>
        (executeMatured env input.block.epoch entry.2.1 st).2)
      (P := fun st _ => st.db.LivesOnce)
      (G := fun st entry => freshMatured env input.block.epoch st entry.2.1)
      ?_ (fun _ _ _ hst hentry => livesOnce_executeMatured hst hentry) _ hsteps
    exact livesOnce_atDeferred env h hfresh
  refine hmatured.of_store (((settles_afterDeferred env ..).db.part_eq Ledger.apart_store).trans ?_)
  exact (writes_payRefunds ..).part_eq Ledger.apart_store

/-- From a database without objects, no id is alive and dead after any blocks that create nothing
under the id of a ghost. -/
theorem livesOnce_run {st : ChainState C S} (hempty : ∀ id, st.db.objects id = none)
    (inputs : List BlockInput)
    (hfresh : ∀ x ∈ trace (nextState env) st inputs, freshBlock env x.1 x.2) (id : ObjectId) :
    ¬(((run (nextState env) st inputs).db.objects id).isSome ∧
      ((run (nextState env) st inputs).db.ghosts id).isSome) := by
  have honce := run_induction (nextState env) (P := fun st _ => st.db.LivesOnce) (G := fun st input
    => freshBlock env st input) (fun id => .inl (hempty id)) (fun _ _ _ hst hblock =>
    livesOnce_nextState env hst hblock) inputs hfresh
  rintro ⟨halive, hdead⟩
  rcases honce id with hnone | hnone
  · simp [hnone] at halive
  · simp [hnone] at hdead

/-- An executor over the empty database that pays block rewards. -/
def mintingState : ChainState Unit Unit :=
  { freshState Ledger.empty with
    rewardAccumulator := some
      { tokenomics :=
          { baseReward := 5000, rewardHalfLife := 0, maxSupplyCap := none, emission := none
            burnShare := fun _ => 0, stakerShare := fun _ => 0, commissionShare := fun _ => 0
            apyBudget := fun _ => none }
        totalMinted := 0, totalBurned := 0, totalToProducers := 0, totalToStakers := 0
        pendingStakerRewards := 0 } }

/-- An object without energy, paid for from the rewards. -/
def spentObject : TxBody :=
  .createObject
    { creator := Hash.zero, objectId := addressOf 1, energy := 0, halfLife := 10, data := [7]
      decayCurve := none, ladMode := none }

/-- A block that looks at the object above. -/
def sweepingBlock (number epoch : ℕ) (bodies : List TxBody) : BlockInput :=
  { freeBlock number epoch bodies with
    scan := { objectIds := [addressOf 1], accountAddresses := [] } }

/-- The object is created after the first rewards, enters grace in the same block and is a ghost
seven epochs later. -/
def shortLife : List BlockInput :=
  [freeBlock 1 1 [], sweepingBlock 2 2 [spentObject], sweepingBlock 3 9 []]

theorem livesOnce_run_resurrected :
    freshBlock simpleChain (run (nextState simpleChain) mintingState shortLife)
        (freeBlock 4 10 [.refresh ⟨addressOf 1, 100⟩]) ∧
      ¬(((run (nextState simpleChain) mintingState
          (shortLife ++ [freeBlock 4 10 [.refresh ⟨addressOf 1, 100⟩]])).db.objects
            (addressOf 1)).isSome ∧
        ((run (nextState simpleChain) mintingState
          (shortLife ++ [freeBlock 4 10 [.refresh ⟨addressOf 1, 100⟩]])).db.ghosts
            (addressOf 1)).isSome) :=
  ⟨by decide +kernel, livesOnce_run simpleChain (fun _ => rfl) _ (by decide +kernel) (addressOf 1)⟩

/-- A ghost whose id is used for a new object stays a ghost. -/
theorem recreated_alive_and_dead :
    mintingState.db = Ledger.empty ∧ ((run (nextState simpleChain) mintingState
        (shortLife ++ [sweepingBlock 4 10 [spentObject]])).db.objects (addressOf 1)).isSome ∧
      ((run (nextState simpleChain) mintingState
        (shortLife ++ [sweepingBlock 4 10 [spentObject]])).db.ghosts (addressOf 1)).isSome :=
  ⟨rfl, by decide +kernel, by decide +kernel⟩

end Simple

end EvaporChain
