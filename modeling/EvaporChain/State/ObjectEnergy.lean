import EvaporChain.State.Evaporation

/-!
# The energy of an object

The evaporation engine follows the decay curve of an object. Everyone else who asks for its energy,
the guards of deferred transactions and the watchers among them, goes by the half-life alone.
-/

namespace EvaporChain

open Core EvaporationEngine Temporal

namespace StateObject

variable (obj : StateObject)

/-- Energy left in an object. -/
def energyAt (currentEpoch : ℕ) : ℕ :=
  energyAtEpoch obj.energy obj.halfLife (currentEpoch - obj.lastRefreshed)

/-- The energy that decides about the death of an object is the energy everyone else sees. -/
structure OneEnergy (epoch : ℕ) (db : StateDb) (phaseOf : ℕ → Option String) : Prop where
  energyAt : obj.energyAt epoch = EvaporationEngine.currentEnergy epoch obj
  energyBelow (threshold : ℕ) : evaluateGuard epoch db phaseOf (.energyBelow obj.id threshold) =
    decide (EvaporationEngine.currentEnergy epoch obj < threshold)
  energyAbove (threshold : ℕ) : evaluateGuard epoch db phaseOf (.energyAbove obj.id threshold) =
    decide (threshold < EvaporationEngine.currentEnergy epoch obj)
  shouldFire (watcher : EnergyWatcher) : watcher.objectId = obj.id → watcher.shouldFire epoch db =
      if watcher.fireBelow then
        decide (EvaporationEngine.currentEnergy epoch obj < watcher.threshold)
      else decide (watcher.threshold < EvaporationEngine.currentEnergy epoch obj)

variable {obj}

/-- What guards and watchers see is `energyAt`, so it all comes down to one equation. -/
lemma oneEnergy_of_energyAt {epoch : ℕ} {db : StateDb} {phaseOf : ℕ → Option String}
    (hobj : db.objects obj.id = some obj)
    (henergy : obj.energyAt epoch = EvaporationEngine.currentEnergy epoch obj) :
    obj.OneEnergy epoch db phaseOf := by
  have hseen : Temporal.currentEnergy epoch obj = EvaporationEngine.currentEnergy epoch obj :=
    henergy
  refine ⟨henergy, fun threshold => ?_, fun threshold => ?_, fun watcher hid => ?_⟩
  · simp [evaluateGuard, hobj, hseen]
  · simp [evaluateGuard, hobj, hseen]
  · simp [EnergyWatcher.shouldFire, hid, hobj, hseen]

end StateObject

/-- A curve that is the decay by a half-life: exponential, under conditions of no grace. -/
def DecayCurve.FollowsHalfLife (halfLife : ℕ) : DecayCurve → Prop
  | .exponential h => h = halfLife
  | .conditional base graceEpochs => graceEpochs = 0 ∧ base.FollowsHalfLife halfLife
  | .linear _ | .stepped _ | .asymptotic _ _ | .custom _ => False

lemma computeEnergy_of_followsHalfLife {halfLife : ℕ} (hpos : 0 < halfLife) :
    ∀ {curve : DecayCurve}, curve.FollowsHalfLife halfLife → ∀ initial elapsed last,
      computeEnergy curve initial elapsed last = energyAtEpoch initial halfLife elapsed
  | .exponential h, hcurve, initial, elapsed, last => by
    rw [computeEnergy, show h = halfLife from hcurve]
    split_ifs with hidle
    · obtain rfl | rfl := hidle <;> simp [energyAtEpoch, hpos.ne']
    · rfl
  | .conditional base graceEpochs, hcurve, initial, elapsed, last => by
    have hbase := computeEnergy_of_followsHalfLife hpos hcurve.2 initial elapsed none
    have helapsed : effectiveElapsed elapsed graceEpochs last = elapsed := by
      rw [hcurve.1]
      cases last <;> simp [effectiveElapsed]
    rw [computeEnergy, helapsed, hbase]
    split_ifs with hidle
    · obtain rfl | rfl := hidle <;> simp [energyAtEpoch, hpos.ne']
    · rfl

/-- Objects without a curve, or with one that follows their half-life, have one energy. -/
theorem one_energy_of_followsHalfLife {obj : StateObject}
    (hcurve : ∀ curve ∈ obj.decayCurve, 0 < obj.halfLife ∧ curve.FollowsHalfLife obj.halfLife)
    (epoch : ℕ) {db : StateDb} (phaseOf : ℕ → Option String)
    (hobj : db.objects obj.id = some obj) : obj.OneEnergy epoch db phaseOf := by
  refine StateObject.oneEnergy_of_energyAt hobj ?_
  unfold StateObject.energyAt EvaporationEngine.currentEnergy
  cases hsome : obj.decayCurve with
  | none => rfl
  | some curve =>
    obtain ⟨hpos, hfollows⟩ := hcurve curve hsome
    exact (computeEnergy_of_followsHalfLife hpos hfollows _ _ _).symm

def curvedObject (curve : DecayCurve) : StateObject where
  id := addressOf 1
  owner := addressOf 9
  energy := 1000
  halfLife := 10
  createdAt := 0
  lastRefreshed := 0
  state := .active
  graceEpoch := none
  data := []
  decayCurve := some curve
  ladMode := none

theorem one_energy_of_followsHalfLife_curved :
    (curvedObject (.conditional (.exponential 10) 0)).OneEnergy 25
      (StateDb.empty.putObject (curvedObject (.conditional (.exponential 10) 0))) fun _ => none :=
  one_energy_of_followsHalfLife (by simp [curvedObject, DecayCurve.FollowsHalfLife]) 25 _
    (by simp [StateDb.putObject])

/-- On a linear curve the object is dead while a guard finds half of its energy; without steps it
lives on while a guard finds none. -/
theorem curved_energies_differ :
    (∃ obj : StateObject, ∃ db, db.objects obj.id = some obj ∧
      EvaporationEngine.currentEnergy 10 obj = 0 ∧ obj.energyAt 10 = 500 ∧
      evaluateGuard 10 db (fun _ => none) (.energyAbove obj.id 499) ∧
      EnergyWatcher.shouldFire 10 db ⟨obj.id, 1, true, 0, "", ""⟩ = false) ∧
    ∃ obj : StateObject, ∃ db, db.objects obj.id = some obj ∧
      EvaporationEngine.currentEnergy 640 obj = 1000 ∧ obj.energyAt 640 = 0 ∧
      evaluateGuard 640 db (fun _ => none) (.energyBelow obj.id 1) ∧
      EnergyWatcher.shouldFire 640 db ⟨obj.id, 1, true, 0, "", ""⟩ = true :=
  ⟨⟨curvedObject (.linear 100), StateDb.empty.putObject (curvedObject (.linear 100)), by decide⟩,
    ⟨curvedObject (.stepped []), StateDb.empty.putObject (curvedObject (.stepped [])), by decide⟩⟩

end EvaporChain
