import EvaporChain.Execution.SimpleExecutor
import EvaporChain.State.EnergyLaws
import EvaporChain.State.ObjectEnergy

/-!
# Refreshing and resurrecting

A refresh adds the deposit to the energy the object had when it was last refreshed and starts the
clock anew, so that it also gives back what decayed since. Resurrection rebuilds an object from its
ghost, which knows neither the curve nor the mode.
-/

namespace EvaporChain

open Core EvaporationEngine Option

/-! ### Refreshing -/

namespace RefreshEngine

/-- The error for an id of which there is nothing. -/
def notFound (db : Ledger) (objectId : ObjectId) (energyDeposit : ℕ) : Simple.Handled Ledger :=
  let error := if energyDeposit = 0 then .zeroEnergy
    else RefreshError.objectNotFound (hexEncode objectId.toList)
  (.error (.refreshFailed error.toString), db)

def refresh (db : Ledger) (objectId : ObjectId) (energyDeposit currentEpoch : ℕ) :
    Simple.Handled Ledger :=
  (db.objects objectId).elim (notFound db objectId energyDeposit) fun obj =>
    Simple.refresh currentEpoch ⟨objectId, energyDeposit⟩ obj db

def resurrect (db : Ledger) (objectId : ObjectId) (energyDeposit currentEpoch : ℕ) :
    Simple.Handled Ledger :=
  (db.ghosts objectId).elim (notFound db objectId energyDeposit) fun ghost =>
    Simple.resurrect currentEpoch ⟨objectId, energyDeposit⟩ ghost db

/-- Deposits for one object, each with its epoch. -/
def refreshes (objectId : ObjectId) (db : Ledger) (payments : List (ℕ × ℕ)) : Ledger :=
  run (fun db p => (refresh db objectId p.1 p.2).2) db payments

variable {db : Ledger} {obj : StateObject}

lemma objects_putObject_self {db : Ledger} : (db.putObject obj).objects obj.id = some obj :=
  Function.update_self ..

/-- A refresh adds no more to the stored energy than what was paid. -/
lemma refresh_le (hobj : db.objects obj.id = some obj) (d epoch : ℕ) :
    ∃ obj', (refresh db obj.id d epoch).2.objects obj'.id = some obj' ∧ obj'.id = obj.id ∧
      obj'.energy ≤ obj.energy + d := by
  simp only [refresh, hobj, elim_some, Simple.refresh]
  split_ifs
  · exact ⟨obj, hobj, rfl, le_self_add⟩
  · split
    · exact ⟨_, objects_putObject_self, rfl, satAdd_le_add _ _⟩
    · exact ⟨_, objects_putObject_self, rfl, satAdd_le_add _ _⟩
    · exact ⟨_, objects_putObject_self, rfl, le_add_self⟩
    · exact ⟨obj, hobj, rfl, le_self_add⟩

lemma refreshes_le (hobj : db.objects obj.id = some obj) (payments : List (ℕ × ℕ)) :
    ∃ obj', (refreshes obj.id db payments).objects obj.id = some obj' ∧
      obj'.energy ≤ obj.energy + (payments.map Prod.fst).sum := by
  induction payments generalizing db obj with
  | nil => exact ⟨obj, hobj, le_rfl⟩
  | cons p payments ih =>
    obtain ⟨obj₁, hobj₁, hid, hle₁⟩ := refresh_le hobj p.1 p.2
    obtain ⟨obj', hobj', hle'⟩ := ih hobj₁
    rw [hid] at hobj'
    refine ⟨obj', hobj', ?_⟩
    rw [List.map_cons, List.sum_cons]
    omega

end RefreshEngine

open RefreshEngine

/-- Decay has not begun to show. -/
def StateObject.Undecayed (obj : StateObject) (epoch : ℕ) : Prop :=
  0 < obj.halfLife ∧ (obj.energy = 0 ∨ epoch - obj.lastRefreshed < obj.halfLife ∧
    obj.energy * (epoch - obj.lastRefreshed) < 2 * obj.halfLife)

/-- A refresh adds what was paid exactly if nothing has decayed, and no run of refreshes gives more
than the energy at its beginning and what was paid. -/
theorem refresh_adds_iff (db : Ledger) (obj : StateObject) (hobj : db.objects obj.id = some obj) :
    (∀ epoch d db', obj.state = .active ∨ obj.state = .resurrected → obj.decayCurve = none →
      obj.lastRefreshed ≤ epoch → 0 < d → obj.energy + d < 2 ^ 64 →
      refresh db obj.id d epoch = (.ok (), db') → ∃ obj', db'.objects obj.id = some obj' ∧
        (obj'.energyAt epoch = obj.energyAt epoch + d ↔ obj.Undecayed epoch)) ∧
    ∀ payments, ∃ obj', (refreshes obj.id db payments).objects obj.id = some obj' ∧
      ∀ epoch, obj'.energyAt epoch ≤ obj.energy + (payments.map Prod.fst).sum := by
  refine ⟨fun epoch d db' hstate _ _ hd hfits h => ?_, fun payments => ?_⟩
  · have hadd : satAdd obj.energy d = obj.energy + d := min_eq_left (Nat.le_sub_one_of_lt hfits)
    obtain rfl :
        db.putObject { obj with energy := obj.energy + d, lastRefreshed := epoch } = db' := by
      simp only [refresh, hobj, elim_some, Simple.refresh, if_neg hd.ne', hadd] at h
      rcases hstate with hstate | hstate
      all_goals
        simp only [hstate, Prod.mk.injEq, true_and] at h
        rw [← h, hstate]
    refine ⟨_, Function.update_self .., ?_⟩
    unfold StateObject.energyAt StateObject.Undecayed
    rcases eq_zero_or_pos obj.halfLife with hzero | hh
    · simp [hzero, energyAtEpoch, hd.ne]
    · have hself : energyAtEpoch (obj.energy + d) obj.halfLife 0 = obj.energy + d :=
        (energyAtEpoch_eq_self_iff hfits hh 0).mpr (.inr ⟨hh, by omega⟩)
      rw [Nat.sub_self, hself, Nat.add_left_inj, eq_comm,
        energyAtEpoch_eq_self_iff (by omega) hh, and_iff_right hh]
  · obtain ⟨obj', hobj', hle⟩ := refreshes_le hobj payments
    exact ⟨obj', hobj', fun epoch => (energyAtEpoch_le _ _ _).trans hle⟩

def agingObject : StateObject := { curvedObject (.linear 0) with decayCurve := none }

theorem refresh_adds_fresh :
    ∃ db : Ledger, ∃ obj', (refresh db agingObject.id 5 0).2.objects agingObject.id = some obj' ∧
      agingObject.energyAt 0 = 1000 ∧ obj'.energyAt 0 = 1000 + 5 := by
  obtain ⟨obj', hobj', hadds⟩ := (refresh_adds_iff (Ledger.empty.putObject agingObject) agingObject
    rfl).1 0 5 _ (.inl rfl) rfl le_rfl (by decide) (by decide) rfl
  exact ⟨Ledger.empty.putObject agingObject, obj', hobj', rfl, hadds.mpr ⟨by decide, by decide⟩⟩

/-- One unit brings back the five hundred that decayed. -/
theorem refresh_restores_decayed :
    ∃ db : Ledger, ∃ obj', db.objects agingObject.id = some agingObject ∧
      (refresh db agingObject.id 1 10).1 = .ok () ∧
      (refresh db agingObject.id 1 10).2.objects agingObject.id = some obj' ∧
      agingObject.energyAt 10 = 500 ∧ obj'.energyAt 10 = 1001 :=
  ⟨Ledger.empty.putObject agingObject, _, rfl, rfl, rfl, by decide, by decide⟩

/-! ### Resurrecting -/

/-- One epoch of evaporation, with a mountain range or without. -/
def Evaporates (blake3 : Bytes → Hash) (engine : EvaporationEngine) (db db' : StateDb) : Prop :=
  ∃ ids epoch mmr s, db.Lists ids ∧
    engine.processEpochInner blake3 db ids epoch mmr = some s ∧ s.db = db'

/-- What is left of an object, alive or as a ghost. -/
def StateObject.Remains (obj : StateObject) (db : StateDb) : Prop :=
  (∃ obj', db.objects obj.id = some obj' ∧ obj'.owner = obj.owner ∧ obj'.data = obj.data ∧
    obj'.halfLife = obj.halfLife) ∨
  db.objects obj.id = none ∧ ∃ ghost, db.ghosts obj.id = some ghost ∧ ghost.owner = obj.owner ∧
    ghost.originalData = some obj.data ∧ ghost.originalHalfLife = some obj.halfLife

variable {blake3 : Bytes → Hash} {engine : EvaporationEngine} {obj : StateObject}

lemma StateObject.Remains.evaporates {db db' : StateDb} (h : obj.Remains db)
    (hstep : Evaporates blake3 engine db db') : obj.Remains db' := by
  obtain ⟨ids, epoch, mmr, s, hids, hs, rfl⟩ := hstep
  have hswept := Swept.of_foldlM (hids.nodup.sublist (List.take_sublist ..)) hs
  have hobjects := hswept.objects obj.id
  rcases h with ⟨obj', hobj', hsame⟩ | ⟨hnone, ghost, hghost, hsame⟩
  · rw [hobj', bind_some] at hobjects
    split_ifs at hobjects with hid
    · unfold fate at hobjects
      split_ifs at hobjects with hdies
      · -- it dies in this sweep, and its ghost is buried
        have hid' : obj'.id = obj.id := db.id_eq hobj'
        rw [← hid'] at hid hobj'
        obtain ⟨i, hi⟩ := List.mem_iff_getElem?.mp (mem_deaths.mpr ⟨hid, hobj', hdies⟩)
        have hburied := hswept.buried i obj' hi
        rw [hid'] at hburied
        exact .inr ⟨hobjects, _, hburied, hsame.1, congrArg some hsame.2.1, congrArg some hsame.2.2⟩
      all_goals exact .inl ⟨_, hobjects, hsame⟩
    · exact .inl ⟨obj', hobjects, hsame⟩
  · rw [hnone, bind_none, ite_self] at hobjects
    refine .inr ⟨hobjects, ghost, ?_, hsame⟩
    rw [hswept.ghosts _ fun obj' hobj' hid => ?_, hghost]
    have hstored := (mem_deaths.mp hobj').2.1
    rw [hid, hnone] at hstored
    cases hstored

/-- A ghost that evaporation left of an object can be brought back with its owner, data and
half-life, and as it was exactly if it had neither a curve nor a mode. -/
theorem resurrect_restores_iff {db : StateDb} (hobj : db.objects obj.id = some obj) (db' : Ledger)
    (hrun : Relation.ReflTransGen (Evaporates blake3 engine) db db'.toStateDb)
    (hdead : db'.objects obj.id = none) {d : ℕ} (hd : 0 < d) (epoch : ℕ) :
    ∃ db'' obj', resurrect db' obj.id d epoch = (.ok (), db'') ∧
      db''.objects = Function.update db'.objects obj.id (some obj') ∧
      db''.ghosts = Function.update db'.ghosts obj.id none ∧
      obj'.id = obj.id ∧ obj'.owner = obj.owner ∧ obj'.data = obj.data ∧
      obj'.halfLife = obj.halfLife ∧ obj'.energy = d ∧ obj'.lastRefreshed = epoch ∧
      (obj'.decayCurve = obj.decayCurve ∧ obj'.ladMode = obj.ladMode ↔
        obj.decayCurve = none ∧ obj.ladMode = none) := by
  have hremains : obj.Remains db'.toStateDb := by
    generalize db'.toStateDb = db₁ at hrun
    induction hrun with
    | refl => exact .inl ⟨obj, hobj, rfl, rfl, rfl⟩
    | tail _ hstep ih => exact ih.evaporates hstep
  rcases hremains with ⟨obj', hobj', -⟩ | ⟨-, ghost, hghost, howner, hdata, hlife⟩
  · rw [hdead] at hobj'
    cases hobj'
  · let back : StateObject :=
      { obj with
        energy := d, createdAt := ghost.evaporatedAt, lastRefreshed := epoch
        state := .resurrected, graceEpoch := none, decayCurve := none, ladMode := none }
    have hback : resurrect db' obj.id d epoch =
        (.ok (), (db'.removeGhost obj.id).putObject back) := by
      simp [resurrect, hghost, Simple.resurrect, GhostRecord.revived, if_neg hd.ne', hdata, howner,
        hlife, back]
    exact ⟨_, back, hback, rfl, rfl, rfl, rfl, rfl, rfl, rfl, rfl, and_congr eq_comm eq_comm⟩

lemma lists_singleton {db : StateDb} {id : ObjectId}
    (h : db.objects = Function.update (fun _ => none) id (some obj)) : db.Lists [id] := by
  refine ⟨List.nodup_singleton id, fun x => ?_⟩
  by_cases hx : x = id <;> simp [h, hx]

/-- An object on a linear curve enters its grace at epoch 10 and is a ghost at epoch 20. -/
lemma linear_evaporates : ∃ db db' : Ledger,
    Relation.ReflTransGen (Evaporates (fun _ => Hash.zero) ⟨10, 1⟩)
      (StateDb.empty.putObject (curvedObject (.linear 100))) db.toStateDb ∧
    db.objects (addressOf 1) = none ∧ resurrect db (addressOf 1) 5 30 = (.ok (), db') ∧
    (db'.objects (addressOf 1)).map (·.decayCurve) = some none :=
  ⟨{ Ledger.empty with toStateDb := _ }, _, .tail
    (.tail .refl ⟨[addressOf 1], 10, none, _, lists_singleton rfl, rfl, rfl⟩)
    ⟨[addressOf 1], 20, none, _,
      lists_singleton (Function.update_idem ..), rfl, rfl⟩, rfl, rfl, rfl⟩

theorem resurrect_restores_iff_linear :
    ∃ db db' : Ledger, ∃ obj', db.objects (addressOf 1) = none ∧
      resurrect db (addressOf 1) 5 30 = (.ok (), db') ∧
      db'.objects (addressOf 1) = some obj' ∧ obj'.energy = 5 ∧ obj'.halfLife = 10 := by
  obtain ⟨db, -, hrun, hdead, -⟩ := linear_evaporates
  obtain ⟨db', obj', hback, hobjects, -, -, -, -, hlife, henergy, -⟩ :=
    @resurrect_restores_iff _ _ (curvedObject (.linear 100)) _ rfl db hrun hdead 5 (by decide) 30
  exact ⟨db, db', obj', hdead, hback, (congrFun hobjects _).trans (Function.update_self ..),
    henergy, hlife⟩

/-- The curve does not survive death and resurrection. -/
theorem resurrect_forgets_curve :
    (curvedObject (.linear 100)).decayCurve = some (.linear 100) ∧ ∃ db db' : Ledger,
      Relation.ReflTransGen (Evaporates (fun _ => Hash.zero) ⟨10, 1⟩)
        (StateDb.empty.putObject (curvedObject (.linear 100))) db.toStateDb ∧
      db.objects (addressOf 1) = none ∧ resurrect db (addressOf 1) 5 30 = (.ok (), db') ∧
      (db'.objects (addressOf 1)).map (·.decayCurve) = some none :=
  ⟨rfl, linear_evaporates⟩

end EvaporChain
