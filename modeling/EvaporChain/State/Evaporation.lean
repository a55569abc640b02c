import EvaporChain.Crypto.Inclusion
import EvaporChain.Execution.Phases
import EvaporChain.State.DecayCurves

/-!
# The evaporation engine

Once an epoch the engine walks over the ids of the objects, at most as many as its limit allows.
Objects without energy enter grace; those whose grace is over become ghosts, and each ghost appends
a nullifier to the mountain range. What a sweep does to an object depends on that object only. Where
the nullifier of a ghost stands depends on the order in which the ids were listed.
-/

namespace EvaporChain

open Core StateDb EvaporationResult List

/-! ### The engine -/

/-- What is appended to the mountain range when an object evaporates. -/
structure EnergyStampedNullifier where
  objectId : ObjectId
  valueHash : Hash
  evaporationEpoch : ℕ
  energyAtDeath : ℕ
  owner : AccountAddress

section

variable (blake3 : Bytes → Hash)

def nullifierLeafDst : Bytes := asciiBytes "evaporchain:nullifier:v1\x00"

def mmrNodeDst : Bytes := asciiBytes "evaporchain:mmr:node:v1\x00"

def EnergyStampedNullifier.toBytes (n : EnergyStampedNullifier) : Hash :=
  blake3 (nullifierLeafDst ++ n.objectId.toList ++ n.valueHash.toList ++
    leBytes 8 n.evaporationEpoch ++ leBytes 8 n.energyAtDeath ++ n.owner.toList)

def hashPair (left right : Hash) : Hash := blake3 (mmrNodeDst ++ left.toList ++ right.toList)

/-- The database, the mountain range and the counts of a sweep. -/
structure Sweep where
  db : StateDb
  mmr : Option (MerkleMountainRange Hash)
  enteredGrace : List ObjectId
  evaporated : List ObjectId
  decayed : ℕ
  alreadyGhost : ℕ

def nullifierOf (epoch : ℕ) (obj : StateObject) : EnergyStampedNullifier where
  objectId := obj.id
  valueHash := blake3 obj.data
  evaporationEpoch := epoch
  energyAtDeath := 0
  owner := obj.owner

def ghostOf (epoch : ℕ) (obj : StateObject) (mmrPosition : Option ℕ) : GhostRecord where
  objectId := obj.id
  owner := obj.owner
  evaporatedAt := epoch
  dataHash := blake3 obj.data
  originalData := some obj.data
  mmrPosition := mmrPosition
  originalHalfLife := some obj.halfLife

/-- Append to the mountain range, if there is one. -/
def appendNullifier (leaf : Hash) :
    Option (MerkleMountainRange Hash) → Option (Option (MerkleMountainRange Hash))
  | none => some none
  | some mmr => (mmr.append (hashPair blake3) leaf).map some

/-- The owner no longer pays for the data of an object. -/
def refundStorage (obj : StateObject) (db : StateDb) : StateDb :=
  db.adjustAccount obj.owner fun acct =>
    { acct with storageBytes := acct.storageBytes - obj.data.length }

def evaporateObject (epoch : ℕ) (obj : StateObject) (s : Sweep) : Option Sweep :=
  (appendNullifier blake3 ((nullifierOf blake3 epoch obj).toBytes blake3) s.mmr).map fun mmr =>
    { s with
      db := ((refundStorage obj s.db).deleteObject obj.id).putGhost
        (ghostOf blake3 epoch obj (s.mmr.map (·.leafCount)))
      mmr := mmr
      evaporated := s.evaporated ++ [obj.id] }

structure EvaporationEngine where
  gracePeriod : ℕ
  maxScanPerEpoch : ℕ

namespace EvaporationEngine

def new (gracePeriod : ℕ) : EvaporationEngine := ⟨gracePeriod, EvaporChain.maxScanPerEpoch⟩

/-- Energy left in an object, by its own curve if it has one. -/
def currentEnergy (epoch : ℕ) (obj : StateObject) : ℕ :=
  let elapsed := epoch - obj.lastRefreshed
  match obj.decayCurve with
  | some curve => computeEnergy curve obj.energy elapsed (some obj.lastRefreshed)
  | none => energyAtEpoch obj.energy obj.halfLife elapsed

variable (engine : EvaporationEngine)

/-- The visit of one id. Where there is no epoch in which the grace began, it begins now. -/
def visit (epoch : ℕ) (s : Sweep) (id : ObjectId) : Option Sweep :=
  match s.db.objects id with
  | none => some s
  | some obj =>
    match obj.state with
    | .ghost => some { s with alreadyGhost := s.alreadyGhost + 1 }
    | .grace =>
      let graceStart := obj.graceEpoch.getD epoch
      let s :=
        if obj.graceEpoch.isSome then s
        else { s with db := s.db.putObject { obj with graceEpoch := some epoch } }
      if (graceStart + engine.gracePeriod) % 2 ^ 64 ≤ epoch then evaporateObject blake3 epoch obj s
      else some s
    | .active | .resurrected =>
      if currentEnergy epoch obj = 0 then
        some { s with
          db := s.db.putObject { obj with state := .grace, graceEpoch := some epoch, energy := 0 }
          enteredGrace := s.enteredGrace ++ [id] }
      else some { s with decayed := s.decayed + 1 }

variable (db : StateDb)

/-- Sweep over the ids in the order in which the database lists them. There is no result if an
index of the mountain range is out of bounds. -/
def processEpochInner (objectIds : List ObjectId) (epoch : ℕ)
    (mmr : Option (MerkleMountainRange Hash)) : Option Sweep :=
  (objectIds.take engine.maxScanPerEpoch).foldlM (engine.visit blake3 epoch) ⟨db, mmr, [], [], 0, 0⟩

def processEpoch (objectIds : List ObjectId) (epoch : ℕ) : Option Sweep :=
  engine.processEpochInner blake3 db objectIds epoch none

def processEpochWithMmr (objectIds : List ObjectId) (epoch : ℕ)
    (mmr : MerkleMountainRange Hash) : Option Sweep :=
  engine.processEpochInner blake3 db objectIds epoch (some mmr)

end EvaporationEngine

end

/-- The keys of the map of objects, in some order. -/
structure StateDb.Lists (db : StateDb) (objectIds : List ObjectId) : Prop where
  nodup : objectIds.Nodup
  mem_iff : ∀ id, id ∈ objectIds ↔ (db.objects id).isSome

lemma StateDb.Lists.perm {db : StateDb} {ids ids' : List ObjectId} (h : db.Lists ids)
    (h' : db.Lists ids') : ids.Perm ids' :=
  (perm_ext_iff_of_nodup h.nodup h'.nodup).mpr fun id =>
    (h.mem_iff id).trans (h'.mem_iff id).symm

lemma StateDb.Lists.of_perm {db : StateDb} {ids ids' : List ObjectId} (h : db.Lists ids)
    (hperm : ids'.Perm ids) : db.Lists ids' :=
  ⟨hperm.nodup_iff.mpr h.nodup, fun id => hperm.mem_iff.trans (h.mem_iff id)⟩

/-! ### One object -/

namespace EvaporationEngine

variable (engine : EvaporationEngine) (epoch : ℕ) (obj : StateObject)

/-- The grace of an object is over; grace without a beginning begins now. -/
def dies : Bool :=
  obj.state = .grace ∧ (obj.graceEpoch.getD epoch + engine.gracePeriod) % 2 ^ 64 ≤ epoch

/-- An object that lives but has no energy. -/
def isSpent : Bool :=
  (obj.state = .active ∨ obj.state = .resurrected) ∧ currentEnergy epoch obj = 0

/-- An object in grace with no epoch in which it began. -/
def isUndated : Bool := obj.state = .grace ∧ obj.graceEpoch = none

/-- What a visit leaves of an object. -/
def fate : Option StateObject :=
  if engine.dies epoch obj then none
  else if isUndated obj then some { obj with graceEpoch := some epoch }
  else if isSpent epoch obj then
    some { obj with state := .grace, graceEpoch := some epoch, energy := 0 }
  else some obj

/-- The objects that die in a sweep, in the order of the sweep. -/
def deaths (db : StateDb) (ids : List ObjectId) : List StateObject :=
  (ids.filterMap db.objects).filter (engine.dies epoch)

variable {engine epoch} {obj : StateObject}

lemma dies_iff : engine.dies epoch obj ↔
    obj.state = .grace ∧ (obj.graceEpoch.getD epoch + engine.gracePeriod) % 2 ^ 64 ≤ epoch := by
  simp [dies]

lemma isSpent_iff : isSpent epoch obj ↔
    (obj.state = .active ∨ obj.state = .resurrected) ∧ currentEnergy epoch obj = 0 := by
  simp [isSpent]

lemma isUndated_iff : isUndated obj ↔ obj.state = .grace ∧ obj.graceEpoch = none := by
  simp [isUndated]

/-- A visit leaves alone exactly what does not die, has a date and has energy. -/
lemma fate_eq_self_iff :
    engine.fate epoch obj = some obj ↔
      ¬engine.dies epoch obj ∧ ¬isUndated obj ∧ ¬isSpent epoch obj := by
  unfold fate
  split_ifs with hdies hundated hspent
  · simp [hdies]
  · refine iff_of_false (fun h => ?_) fun h => h.2.1 hundated
    have hgrace := congrArg StateObject.graceEpoch (Option.some.inj h)
    simp [(isUndated_iff.mp hundated).2] at hgrace
  · refine iff_of_false (fun h => ?_) fun h => h.2.2 hspent
    have hstate : .grace = obj.state := congrArg StateObject.state (Option.some.inj h)
    have hlive := (isSpent_iff.mp hspent).1
    simp [← hstate] at hlive
  · simp [hdies, hundated, hspent]

lemma mem_deaths {db : StateDb} {ids : List ObjectId} :
    obj ∈ engine.deaths epoch db ids ↔
      obj.id ∈ ids ∧ db.objects obj.id = some obj ∧ engine.dies epoch obj := by
  simp only [deaths, mem_filter, mem_filterMap]
  constructor
  · rintro ⟨⟨id, hid, hobj⟩, hdies⟩
    obtain rfl := db.id_eq hobj
    exact ⟨hid, hobj, hdies⟩
  · rintro ⟨hid, hobj, hdies⟩
    exact ⟨⟨obj.id, hid, hobj⟩, hdies⟩

lemma deaths_append (db : StateDb) (ids ids' : List ObjectId) :
    engine.deaths epoch db (ids ++ ids') =
      engine.deaths epoch db ids ++ engine.deaths epoch db ids' := by
  simp [deaths]

lemma deaths_singleton {db : StateDb} {id : ObjectId} (h : db.objects id = some obj) :
    engine.deaths epoch db [id] = if engine.dies epoch obj then [obj] else [] := by
  simp [deaths, h, filter_cons]

/-- What is left of a sweep before an object in grace is looked at: the grace has a beginning. -/
def dated (epoch : ℕ) (obj : StateObject) (s : Sweep) : Sweep :=
  if obj.graceEpoch.isSome then s
  else { s with db := s.db.putObject { obj with graceEpoch := some epoch } }

section Visits

variable {blake3 : Bytes → Hash} {s : Sweep} {id : ObjectId} {obj : StateObject}
  (hobj : s.db.objects id = some obj)

include hobj

lemma visit_of_ghost (hstate : obj.state = .ghost) :
    engine.visit blake3 epoch s id = some { s with alreadyGhost := s.alreadyGhost + 1 } := by
  simp [visit, hobj, hstate]

lemma visit_of_grace (hstate : obj.state = .grace) :
    engine.visit blake3 epoch s id =
      if engine.dies epoch obj then evaporateObject blake3 epoch obj (dated epoch obj s)
      else some (dated epoch obj s) := by
  have hdies : engine.dies epoch obj ↔
      (obj.graceEpoch.getD epoch + engine.gracePeriod) % 2 ^ 64 ≤ epoch := by
    rw [dies_iff, and_iff_right hstate]
  simp [visit, hobj, hstate, hdies, dated]

lemma visit_of_live (hstate : obj.state = .active ∨ obj.state = .resurrected) :
    engine.visit blake3 epoch s id =
      if currentEnergy epoch obj = 0 then
        some { s with
          db := s.db.putObject { obj with state := .grace, graceEpoch := some epoch, energy := 0 }
          enteredGrace := s.enteredGrace ++ [id] }
      else some { s with decayed := s.decayed + 1 } := by
  rcases hstate with hstate | hstate <;> simp only [visit, hobj, hstate]

end Visits

end EvaporationEngine

open EvaporationEngine

/-! ### What a sweep does -/

variable (obj : StateObject) (db : StateDb)

@[simp] lemma objects_refundStorage :
    (refundStorage obj db).objects = db.objects := by
  unfold refundStorage adjustAccount
  split_ifs <;> rfl

@[simp] lemma ghosts_refundStorage : (refundStorage obj db).ghosts = db.ghosts := by
  unfold refundStorage adjustAccount
  split_ifs <;> rfl

lemma accounts_refundStorage (addr : AccountAddress) :
    (refundStorage obj db).accounts addr = (db.accounts addr).map fun acct =>
      { acct with
        storageBytes := acct.storageBytes - if obj.owner = addr then obj.data.length else 0 } := by
  unfold refundStorage adjustAccount
  by_cases haddr : obj.owner = addr
  · subst haddr
    cases hacct : db.accounts obj.owner with
    | none => simp [hacct]
    | some acct =>
      simp [accounts_updateAccount, account_of_some hacct, db.address_eq hacct]
  · have hne : ¬addr = obj.owner := fun h => haddr h.symm
    split_ifs
    · simp [accounts_updateAccount, hne]
    · simp

section

variable (blake3 : Bytes → Hash)

/-- Append a nullifier for each object. -/
def appendAll (epoch : ℕ) (mmr : Option (MerkleMountainRange Hash)) (objs : List StateObject) :
    Option (Option (MerkleMountainRange Hash)) :=
  objs.foldlM (fun mmr obj => appendNullifier blake3 ((nullifierOf blake3 epoch obj).toBytes blake3)
    mmr) mmr

def freedBytes (addr : AccountAddress) (objs : List StateObject) : ℕ :=
  ((objs.filter (·.owner = addr)).map (·.data.length)).sum

variable (engine : EvaporationEngine) (epoch : ℕ)

/-- A sweep over some ids, said of each object, ghost and account. -/
structure Swept (s : Sweep) (ids : List ObjectId) (s' : Sweep) : Prop where
  objects : ∀ id, s'.db.objects id =
    if id ∈ ids then (s.db.objects id).bind (engine.fate epoch) else s.db.objects id
  ghosts : ∀ id, (∀ obj ∈ engine.deaths epoch s.db ids, obj.id ≠ id) →
    s'.db.ghosts id = s.db.ghosts id
  buried : ∀ i obj, (engine.deaths epoch s.db ids)[i]? = some obj → s'.db.ghosts obj.id =
    some (ghostOf blake3 epoch obj (s.mmr.map (·.leafCount + i)))
  accounts : ∀ addr, s'.db.accounts addr = (s.db.accounts addr).map fun acct =>
    { acct with storageBytes :=
        acct.storageBytes - freedBytes addr (engine.deaths epoch s.db ids) }
  mmr : appendAll blake3 epoch s.mmr (engine.deaths epoch s.db ids) = some s'.mmr

variable {blake3 engine epoch} {mmr : Option (MerkleMountainRange Hash)}
  {mmr' : Option (MerkleMountainRange Hash)}

lemma leafCount_appendNullifier {leaf : Hash} (h : appendNullifier blake3 leaf mmr = some mmr') :
    mmr'.map (·.leafCount) = mmr.map (·.leafCount + 1) := by
  cases mmr with
  | none =>
    cases h
    rfl
  | some m =>
    obtain ⟨m', hm', rfl⟩ := Option.map_eq_some_iff.mp h
    obtain ⟨nodes, -, rfl⟩ := Option.map_eq_some_iff.mp hm'
    rfl

lemma leafCount_appendAll {objs : List StateObject}
    (h : appendAll blake3 epoch mmr objs = some mmr') :
    mmr'.map (·.leafCount) = mmr.map (·.leafCount + objs.length) := by
  induction objs generalizing mmr with
  | nil =>
    cases h
    rfl
  | cons obj objs ih =>
    obtain ⟨mmr₁, h₁, h₂⟩ := Option.bind_eq_some_iff.mp h
    have hcount := leafCount_appendNullifier h₁
    rw [ih h₂]
    cases mmr <;> cases mmr₁ <;> simp_all
    omega

namespace Swept

lemma nil (s : Sweep) : Swept blake3 engine epoch s [] s where
  objects _ := rfl
  ghosts _ _ := rfl
  buried i obj h := by simp [deaths] at h
  accounts addr := by simp [deaths, freedBytes]
  mmr := rfl

variable {ids : List ObjectId}

lemma objects_of_notMem {s s' : Sweep} (h : Swept blake3 engine epoch s ids s') {id : ObjectId}
    (hid : id ∉ ids) : s'.db.objects id = s.db.objects id := by
  rw [h.objects, if_neg hid]

/-- A sweep over some ids and then over others. -/
lemma append {s s₁ s' : Sweep} {ids' : List ObjectId} (h : Swept blake3 engine epoch s ids s₁)
    (h' : Swept blake3 engine epoch s₁ ids' s') (hnodup : (ids ++ ids').Nodup) :
    Swept blake3 engine epoch s (ids ++ ids') s' := by
  have hdisjoint := (List.nodup_append'.mp hnodup).2.2
  -- the first sweep leaves the objects of the second alone
  have hlater : engine.deaths epoch s₁.db ids' = engine.deaths epoch s.db ids' := by
    rw [deaths, deaths, filterMap_congr fun id hid =>
      h.objects_of_notMem fun hid' => hdisjoint hid' hid]
  have hghosts := h'.ghosts
  have hburied := h'.buried
  have haccounts := h'.accounts
  have hmmr := h'.mmr
  rw [hlater] at hghosts hburied hmmr
  simp only [hlater] at haccounts
  constructor
  case objects =>
    intro id
    rw [h'.objects, h.objects]
    by_cases hid : id ∈ ids
    · have hid' : id ∉ ids' := fun hid' => hdisjoint hid hid'
      simp [hid']
    · simp [hid]
  case ghosts =>
    intro id hid
    simp only [deaths_append, mem_append] at hid
    rw [hghosts id fun obj hobj => hid obj (.inr hobj),
      h.ghosts id fun obj hobj => hid obj (.inl hobj)]
  case buried =>
    intro i obj hobj
    rw [deaths_append, List.getElem?_append] at hobj
    split_ifs at hobj with hi
    · rw [hghosts obj.id, h.buried i obj hobj]
      intro obj' hobj' hid
      have hmem := mem_deaths.mp (mem_of_getElem? hobj)
      have hmem' := mem_deaths.mp hobj'
      exact hdisjoint hmem.1 (hid ▸ hmem'.1)
    · have hcount := leafCount_appendAll h.mmr
      rw [hburied _ obj hobj]
      cases hs : s.mmr <;> cases hs₁ : s₁.mmr <;> simp_all
  case accounts =>
    intro addr
    rw [haccounts, h.accounts, Option.map_map, deaths_append]
    congr 1
    funext acct
    simp [freedBytes, Nat.sub_sub]
  case mmr =>
    rw [deaths_append]
    exact List.foldlM_append.trans ((congrArg (Option.bind · _) h.mmr).trans hmmr)

variable {s s₀ s' : Sweep} {id : ObjectId} {obj : StateObject}

/-- A visit of an object that does not die. -/
lemma of_survivor (hobj : s.db.objects id = some obj) (hdies : ¬engine.dies epoch obj)
    (hobjects : s'.db.objects = Function.update s.db.objects id (engine.fate epoch obj))
    (hghosts : s'.db.ghosts = s.db.ghosts) (haccounts : s'.db.accounts = s.db.accounts)
    (hmmr : s'.mmr = s.mmr) : Swept blake3 engine epoch s [id] s' := by
  have hdeaths : engine.deaths epoch s.db [id] = [] := by
    rw [deaths_singleton hobj, if_neg hdies]
  constructor
  case objects =>
    intro x
    rw [hobjects]
    by_cases hx : x = id
    · simp [hx, hobj]
    · simp [hx]
  case ghosts => exact fun x _ => congrFun hghosts x
  case buried =>
    intro i obj' hobj'
    simp [hdeaths] at hobj'
  case accounts =>
    simp [haccounts, hdeaths, freedBytes]
  case mmr => simp [hdeaths, appendAll, hmmr]

/-- A visit of an object that dies, after a date of its grace was noted down or not. -/
lemma of_evaporateObject (h : evaporateObject blake3 epoch obj s₀ = some s')
    (hobj : s.db.objects id = some obj) (hdies : engine.dies epoch obj)
    (hobjects : ∀ x, x ≠ id → s₀.db.objects x = s.db.objects x)
    (hghosts : s₀.db.ghosts = s.db.ghosts) (haccounts : s₀.db.accounts = s.db.accounts)
    (hmmr : s₀.mmr = s.mmr) : Swept blake3 engine epoch s [id] s' := by
  have hdeaths : engine.deaths epoch s.db [id] = [obj] := by
    rw [deaths_singleton hobj, if_pos hdies]
  obtain rfl := s.db.id_eq hobj
  obtain ⟨mmr, happend, rfl⟩ := Option.map_eq_some_iff.mp h
  constructor
  case objects =>
    intro x
    by_cases hx : x = obj.id
    · simp [hx, hobj, fate, hdies, putGhost, deleteObject]
    · simpa [hx, putGhost, deleteObject] using hobjects x hx
  case ghosts =>
    intro x hx
    have hne : x ≠ obj.id := (hx obj (by simp [hdeaths])).symm
    simpa [putGhost, deleteObject, ghostOf, hne] using congrFun hghosts x
  case buried =>
    intro i obj' hobj'
    rw [hdeaths] at hobj'
    obtain ⟨rfl, rfl⟩ : i = 0 ∧ obj = obj' := by
      cases i with
      | zero => exact ⟨rfl, Option.some.inj hobj'⟩
      | succ i => simp at hobj'
    simp [putGhost, ghostOf, hmmr]
  case accounts =>
    intro addr
    have hkept : ((refundStorage obj s₀.db).deleteObject obj.id).accounts =
        (refundStorage obj s₀.db).accounts := rfl
    simp only [putGhost, hkept, accounts_refundStorage, haccounts, hdeaths, freedBytes]
    by_cases haddr : obj.owner = addr <;> simp [haddr]
  case mmr =>
    simp only [hdeaths, ← hmmr, appendAll, foldlM_cons, happend]
    rfl

section

variable (hobj : s.db.objects id = some obj)

include hobj

/-- A visit of an object that stays as it is. -/
lemma of_unchanged (hdies : ¬engine.dies epoch obj) (hundated : ¬isUndated obj)
    (hspent : ¬isSpent epoch obj) (hdb : s'.db = s.db) (hmmr : s'.mmr = s.mmr) :
    Swept blake3 engine epoch s [id] s' := by
  refine of_survivor hobj hdies ?_ (by rw [hdb]) (by rw [hdb]) hmmr
  rw [fate_eq_self_iff.mpr ⟨hdies, hundated, hspent⟩, hdb, ← hobj, Function.update_eq_self]

lemma of_visit_grace (hstate : obj.state = .grace)
    (h : engine.visit blake3 epoch s id = some s') : Swept blake3 engine epoch s [id] s' := by
  have hid : obj.id = id := s.db.id_eq hobj
  have hspent : ¬isSpent epoch obj := by
    simp [isSpent_iff, hstate]
  rw [visit_of_grace hobj hstate, dated] at h
  by_cases hdated : obj.graceEpoch.isSome
  · split_ifs at h with hdies
    · exact of_evaporateObject h hobj hdies (fun _ _ => rfl) rfl rfl rfl
    · cases h
      have hundated : ¬isUndated obj := by
        intro hundated
        simp [(isUndated_iff.mp hundated).2] at hdated
      exact of_unchanged hobj hdies hundated hspent rfl rfl
  · split_ifs at h with hdies
    · -- the beginning of the grace is noted down, then the object goes
      refine of_evaporateObject h hobj hdies (fun x hx => ?_) rfl rfl rfl
      exact Function.update_of_ne (hid ▸ hx) _ _
    · cases h
      have hundated : isUndated obj :=
        isUndated_iff.mpr ⟨hstate, by simpa using hdated⟩
      have hfate : engine.fate epoch obj = some { obj with graceEpoch := some epoch } := by
        rw [fate, if_neg hdies, if_pos hundated]
      refine of_survivor hobj hdies ?_ rfl rfl rfl
      rw [hfate, ← hid]
      rfl

lemma of_visit_live (hstate : obj.state = .active ∨ obj.state = .resurrected)
    (h : engine.visit blake3 epoch s id = some s') : Swept blake3 engine epoch s [id] s' := by
  have hid : obj.id = id := s.db.id_eq hobj
  have hgrace : obj.state ≠ .grace := by
    rcases hstate with hstate | hstate <;> simp [hstate]
  have hdies : ¬engine.dies epoch obj := fun hdies => hgrace (dies_iff.mp hdies).1
  have hundated : ¬isUndated obj := fun hundated =>
    hgrace (isUndated_iff.mp hundated).1
  rw [visit_of_live hobj hstate] at h
  split_ifs at h with henergy <;> cases h
  · have hspent : isSpent epoch obj :=
      isSpent_iff.mpr ⟨hstate, henergy⟩
    have hfate : engine.fate epoch obj =
        some { obj with state := .grace, graceEpoch := some epoch, energy := 0 } := by
      rw [fate, if_neg hdies, if_neg hundated, if_pos hspent]
    refine of_survivor hobj hdies ?_ rfl rfl rfl
    rw [hfate, ← hid]
    rfl
  · refine of_unchanged hobj hdies hundated (fun hspent => henergy ?_) rfl rfl
    exact (isSpent_iff.mp hspent).2

end

/-- A visit does to its object what its fate says. -/
lemma of_visit (h : engine.visit blake3 epoch s id = some s') :
    Swept blake3 engine epoch s [id] s' := by
  cases hobj : s.db.objects id with
  | none =>
    simp only [visit, hobj] at h
    cases h
    have hdeaths : engine.deaths epoch s.db [id] = [] := by
      simp [deaths, hobj]
    refine ⟨fun x => ?_, fun _ _ => rfl, ?_, ?_, ?_⟩
    · by_cases hx : x = id <;> simp [hx, hobj]
    · simp [hdeaths]
    · simp [hdeaths, freedBytes]
    · simp [hdeaths, appendAll]
  | some obj =>
    cases hstate : obj.state with
    | grace => exact of_visit_grace hobj hstate h
    | active => exact of_visit_live hobj (.inl hstate) h
    | resurrected => exact of_visit_live hobj (.inr hstate) h
    | ghost =>
      rw [visit_of_ghost hobj hstate] at h
      cases h
      refine of_unchanged hobj ?_ ?_ ?_ rfl rfl
      · simp [dies_iff, hstate]
      · simp [isUndated_iff, hstate]
      · simp [isSpent_iff, hstate]

/-- A sweep does to each object what its fate says. -/
lemma of_foldlM (hnodup : ids.Nodup) (h : ids.foldlM (engine.visit blake3 epoch) s = some s') :
    Swept blake3 engine epoch s ids s' := by
  induction ids generalizing s with
  | nil =>
    cases h
    exact nil _
  | cons id ids ih =>
    obtain ⟨s₁, hvisit, hrest⟩ := Option.bind_eq_some_iff.mp h
    exact (of_visit hvisit).append (ih (List.nodup_cons.mp hnodup).2 hrest) hnodup

end Swept

/-! ### Sweeps that end -/

variable (blake3) in
/-- A mountain range, if there is one, that was built by appending and has room for more leaves. -/
def HasRoom (n : ℕ) (mmr : Option (MerkleMountainRange Hash)) : Prop :=
  ∀ m, mmr = some m → ∃ leaves,
    MerkleMountainRange.ofLeaves (hashPair blake3) leaves = some m ∧ leaves.length + n < 2 ^ 64

lemma HasRoom.of_succ {n : ℕ} (h : HasRoom blake3 (n + 1) mmr) : HasRoom blake3 n mmr := by
  intro m hm
  obtain ⟨leaves, hleaves, hlt⟩ := h m hm
  exact ⟨leaves, hleaves, by omega⟩

lemma HasRoom.appendNullifier {n : ℕ} (h : HasRoom blake3 (n + 1) mmr) (leaf : Hash) :
    ∃ mmr', EvaporChain.appendNullifier blake3 leaf mmr = some mmr' ∧ HasRoom blake3 n mmr' := by
  cases mmr with
  | none => exact ⟨none, rfl, fun _ hm => nomatch hm⟩
  | some m =>
    obtain ⟨leaves, hleaves, hlt⟩ := h m rfl
    have hmore := (MerkleMountainRange.ofLeaves_spec (hashPair blake3) Hash.zero
      (leaves ++ [leaf])).2 (by simp; omega)
    obtain ⟨m', hm'⟩ := hmore
    have happend : m.append (hashPair blake3) leaf = some m' := by
      unfold MerkleMountainRange.ofLeaves at hleaves hm'
      rw [foldlM_append, hleaves] at hm'
      simpa using hm'
    refine ⟨some m', by simp [EvaporChain.appendNullifier, happend], ?_⟩
    rintro _ ⟨⟩
    exact ⟨leaves ++ [leaf], hm', by simp; omega⟩

lemma exists_visit {n : ℕ} {s : Sweep} (h : HasRoom blake3 (n + 1) s.mmr) (id : ObjectId) :
    ∃ s', engine.visit blake3 epoch s id = some s' ∧ HasRoom blake3 n s'.mmr := by
  have hevaporate (obj : StateObject) {s₀ : Sweep} (hmmr : s₀.mmr = s.mmr) :
      ∃ s', evaporateObject blake3 epoch obj s₀ = some s' ∧ HasRoom blake3 n s'.mmr := by
    obtain ⟨mmr', happend, hroom⟩ :=
      h.appendNullifier ((nullifierOf blake3 epoch obj).toBytes blake3)
    rw [← hmmr] at happend
    exact ⟨_, Option.map_eq_some_iff.mpr ⟨mmr', happend, rfl⟩, hroom⟩
  unfold visit
  split
  · exact ⟨s, rfl, h.of_succ⟩
  · split
    · exact ⟨_, rfl, h.of_succ⟩
    · dsimp only
      split_ifs
      · exact hevaporate _ rfl
      · exact hevaporate _ rfl
      · exact ⟨_, rfl, h.of_succ⟩
      · exact ⟨_, rfl, h.of_succ⟩
    all_goals
      split_ifs
      · exact ⟨_, rfl, h.of_succ⟩
      · exact ⟨_, rfl, h.of_succ⟩

lemma exists_foldlM {s : Sweep} {ids : List ObjectId} (h : HasRoom blake3 ids.length s.mmr) :
    ∃ s', ids.foldlM (engine.visit blake3 epoch) s = some s' := by
  induction ids generalizing s with
  | nil => exact ⟨s, rfl⟩
  | cons id ids ih =>
    obtain ⟨s₁, hvisit, hroom⟩ := exists_visit h id
    obtain ⟨s', hrest⟩ := ih hroom
    exact ⟨s', by rw [foldlM_cons, hvisit]; exact hrest⟩

variable (blake3 engine epoch) in
/-- A sweep over a listing visits as many of its ids as the limit allows. -/
lemma processEpochInner_spec (db : StateDb) {ids : List ObjectId} (hnodup : ids.Nodup)
    (hroom : HasRoom blake3 ids.length mmr) :
    ∃ s, engine.processEpochInner blake3 db ids epoch mmr = some s ∧
      Swept blake3 engine epoch ⟨db, mmr, [], [], 0, 0⟩ (ids.take engine.maxScanPerEpoch) s := by
  have hroom' : HasRoom blake3 (ids.take engine.maxScanPerEpoch).length mmr := by
    intro m hm
    obtain ⟨leaves, hleaves, hlt⟩ := hroom m hm
    have hlength := Nat.add_le_add_left (List.length_take_le' engine.maxScanPerEpoch ids)
      leaves.length
    exact ⟨leaves, hleaves, hlength.trans_lt hlt⟩
  obtain ⟨s, hs⟩ := exists_foldlM (s := ⟨db, mmr, [], [], 0, 0⟩) hroom'
  exact ⟨s, hs, Swept.of_foldlM (hnodup.sublist (take_sublist ..)) hs⟩

end

end EvaporChain
