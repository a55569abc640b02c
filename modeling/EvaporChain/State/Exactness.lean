import EvaporChain.State.Evaporation

/-!
# Complete, exact and independent of the order

Evaporation does what it should as long as the limit of a sweep covers all objects that need it and
every grace has a beginning. Its result depends on the order in which the database lists the ids as
soon as two objects die in one sweep, or a sweep ends before the last object.
-/

namespace EvaporChain

open Core List

/-! ### Completeness and exactness -/

namespace EvaporationEngine

variable (engine : EvaporationEngine) (epoch : ℕ)

/-- An object that is in grace since an epoch that is at least the grace period ago. -/
def IsDue (obj : StateObject) : Prop :=
  obj.state = .grace ∧ ∃ g, obj.graceEpoch = some g ∧ g + engine.gracePeriod ≤ epoch

/-- The evaporation of an epoch as it is meant: objects without energy are in grace, those that are
due are ghosts, and all else is as it was, up to the storage of the owners of new ghosts. -/
structure Exact (db db' : StateDb) : Prop where
  complete : ∀ id obj, db'.objects id = some obj →
    obj.state = .active ∨ obj.state = .resurrected → currentEnergy epoch obj ≠ 0
  entered : ∀ id obj, db.objects id = some obj → isSpent epoch obj → db'.objects id =
    some { obj with state := .grace, graceEpoch := some epoch, energy := 0 }
  evaporated : ∀ id obj, db.objects id = some obj → engine.IsDue epoch obj →
    db'.objects id = none ∧ ∃ ghost, db'.ghosts id = some ghost ∧ ghost.owner = obj.owner ∧
      ghost.originalData = some obj.data ∧ ghost.originalHalfLife = some obj.halfLife
  objects : ∀ id, (∀ obj, db.objects id = some obj → ¬isSpent epoch obj ∧ ¬engine.IsDue epoch obj) →
    db'.objects id = db.objects id
  ghosts : ∀ id, (∀ obj, db.objects id = some obj → ¬engine.IsDue epoch obj) →
    db'.ghosts id = db.ghosts id
  accounts : ∀ addr, (db'.accounts addr).map (fun acct => { acct with storageBytes := 0 }) =
    (db.accounts addr).map fun acct => { acct with storageBytes := 0 }
  storage : ∀ addr,
    (∀ id obj, db.objects id = some obj → engine.IsDue epoch obj → obj.owner ≠ addr) →
      db'.accounts addr = db.accounts addr

/-- Nothing has to be done beyond the limit, and grace has a beginning where it is looked at. -/
def Covers (db : StateDb) (objectIds : List ObjectId) : Prop :=
  (∀ id ∈ objectIds.drop engine.maxScanPerEpoch, ∀ obj, db.objects id = some obj →
    ¬isSpent epoch obj ∧ ¬engine.IsDue epoch obj) ∧
  ∀ id ∈ objectIds.take engine.maxScanPerEpoch, ∀ obj, db.objects id = some obj → ¬isUndated obj

variable {engine epoch} {db : StateDb} {ids : List ObjectId} {obj : StateObject}

lemma dies_iff_isDue (hundated : ¬isUndated obj)
    (hbound : ∀ g, obj.state = .grace → obj.graceEpoch = some g →
      g + engine.gracePeriod < 2 ^ 64) : engine.dies epoch obj ↔ engine.IsDue epoch obj := by
  rw [dies_iff]
  refine and_congr_right fun hstate => ?_
  cases hgrace : obj.graceEpoch with
  | none => exact absurd (isUndated_iff.mpr ⟨hstate, hgrace⟩) hundated
  | some g =>
    rw [Option.getD_some, Nat.mod_eq_of_lt (hbound g hstate hgrace)]
    simp

lemma not_isSpent_of_isDue (h : engine.IsDue epoch obj) : ¬isSpent epoch obj := by
  rw [isSpent_iff, h.1]
  simp

/-- An id of an object is visited, or it is beyond the limit. -/
lemma mem_take_or_drop (hlists : db.Lists ids) {id : ObjectId}
    (hobj : db.objects id = some obj) (n : ℕ) : id ∈ ids.take n ∨ id ∈ ids.drop n := by
  have hid : id ∈ ids := (hlists.mem_iff id).mpr (by rw [hobj]; rfl)
  rwa [← take_append_drop n ids, mem_append] at hid

variable {blake3 : Bytes → Hash} {s : Sweep}

lemma exact_of_covers (hlists : db.Lists ids)
    (hbound : ∀ id obj g, db.objects id = some obj → obj.state = .grace →
      obj.graceEpoch = some g → g + engine.gracePeriod < 2 ^ 64)
    (hswept : Swept blake3 engine epoch ⟨db, none, [], [], 0, 0⟩
      (ids.take engine.maxScanPerEpoch) s) (hcovers : engine.Covers epoch db ids) :
    engine.Exact epoch db s.db := by
  obtain ⟨hbeyond, hdated⟩ := hcovers
  have hdies {id : ObjectId} {obj : StateObject} (hid : id ∈ ids.take engine.maxScanPerEpoch)
      (hobj : db.objects id = some obj) : engine.dies epoch obj ↔ engine.IsDue epoch obj :=
    dies_iff_isDue (hdated id hid obj hobj) (hbound id obj · hobj)
  -- what dies in the sweep was due
  have hdue {obj : StateObject}
      (hobj : obj ∈ engine.deaths epoch db (ids.take engine.maxScanPerEpoch)) :
      db.objects obj.id = some obj ∧ engine.IsDue epoch obj := by
    obtain ⟨hid, hobj, hobjdies⟩ := mem_deaths.mp hobj
    exact ⟨hobj, (hdies hid hobj).mp hobjdies⟩
  constructor
  case complete =>
    intro id obj hobj hlive
    rw [hswept.objects] at hobj
    split_ifs at hobj with hid
    · obtain ⟨obj₀, hobj₀, hfate⟩ := Option.bind_eq_some_iff.mp hobj
      unfold fate at hfate
      split_ifs at hfate with hdead hundated hspent <;> cases hfate
      · exact absurd hundated (hdated id hid obj₀ hobj₀)
      · simp at hlive
      · exact fun henergy => hspent (isSpent_iff.mpr ⟨hlive, henergy⟩)
    · have hdrop := (mem_take_or_drop hlists hobj engine.maxScanPerEpoch).resolve_left hid
      exact fun henergy => (hbeyond id hdrop obj hobj).1 (isSpent_iff.mpr ⟨hlive, henergy⟩)
  case entered =>
    intro id obj hobj hspent
    have hid : id ∈ ids.take engine.maxScanPerEpoch :=
      (mem_take_or_drop hlists hobj engine.maxScanPerEpoch).resolve_right fun hdrop =>
        (hbeyond id hdrop obj hobj).1 hspent
    have hdead : ¬engine.dies epoch obj := fun hdead =>
      not_isSpent_of_isDue ((hdies hid hobj).mp hdead) hspent
    rw [hswept.objects, if_pos hid, hobj, Option.bind_some, fate, if_neg hdead,
      if_neg (hdated id hid obj hobj), if_pos hspent]
  case evaporated =>
    intro id obj hobj hobjdue
    have hid : id ∈ ids.take engine.maxScanPerEpoch :=
      (mem_take_or_drop hlists hobj engine.maxScanPerEpoch).resolve_right fun hdrop =>
        (hbeyond id hdrop obj hobj).2 hobjdue
    have hdead := (hdies hid hobj).mpr hobjdue
    obtain rfl := db.id_eq hobj
    refine ⟨by rw [hswept.objects, if_pos hid, hobj, Option.bind_some, fate, if_pos hdead], ?_⟩
    have hmem : obj ∈ engine.deaths epoch db (ids.take engine.maxScanPerEpoch) :=
      mem_deaths.mpr ⟨hid, hobj, hdead⟩
    obtain ⟨i, hi⟩ := mem_iff_getElem?.mp hmem
    exact ⟨_, hswept.buried i obj hi, rfl, rfl, rfl⟩
  case objects =>
    intro id hidle
    rw [hswept.objects]
    split_ifs with hid
    · cases hobj : db.objects id with
      | none => rfl
      | some obj =>
        obtain ⟨hspent, hnotdue⟩ := hidle obj hobj
        exact fate_eq_self_iff.mpr
          ⟨fun hdead => hnotdue ((hdies hid hobj).mp hdead), hdated id hid obj hobj, hspent⟩
    · rfl
  case ghosts =>
    intro id hidle
    refine hswept.ghosts id fun obj hobj hid => ?_
    obtain ⟨hobj, hobjdue⟩ := hdue hobj
    exact hidle obj (hid ▸ hobj) hobjdue
  case accounts =>
    intro addr
    rw [hswept.accounts, Option.map_map]
    rfl
  case storage =>
    intro addr hnone
    rw [hswept.accounts]
    have hfreed : freedBytes addr
        (engine.deaths epoch db (ids.take engine.maxScanPerEpoch)) = 0 := by
      unfold freedBytes
      rw [List.filter_eq_nil_iff.mpr]
      · rfl
      · intro obj hobj
        obtain ⟨hobj, hobjdue⟩ := hdue hobj
        simpa using hnone obj.id obj hobj hobjdue
    simp [hfreed]

lemma covers_of_exact (hlists : db.Lists ids)
    (hswept : Swept blake3 engine epoch ⟨db, none, [], [], 0, 0⟩
      (ids.take engine.maxScanPerEpoch) s) (hexact : engine.Exact epoch db s.db) :
    engine.Covers epoch db ids := by
  constructor
  · intro id hdrop obj hobj
    have hid : id ∉ ids.take engine.maxScanPerEpoch := fun hid =>
      disjoint_take_drop hlists.nodup le_rfl hid hdrop
    have hkept : s.db.objects id = some obj := (hswept.objects_of_notMem hid).trans hobj
    refine ⟨fun hspent => ?_, fun hobjdue => ?_⟩
    · obtain ⟨hlive, henergy⟩ := isSpent_iff.mp hspent
      exact hexact.complete id obj hkept hlive henergy
    · have hgone := (hexact.evaporated id obj hobj hobjdue).1
      rw [hkept] at hgone
      cases hgone
  · intro id hid obj hobj hundated
    obtain ⟨hstate, hgrace⟩ := isUndated_iff.mp hundated
    have hkept := hexact.objects id fun obj' hobj' => by
      obtain rfl := Option.some.inj (hobj.symm.trans hobj')
      refine ⟨fun hspent => ?_, fun hobjdue => ?_⟩
      · have hlive := (isSpent_iff.mp hspent).1
        simp [hstate] at hlive
      · obtain ⟨-, g, hg, -⟩ := hobjdue
        simp [hgrace] at hg
    rw [hswept.objects, if_pos hid, hobj] at hkept
    exact (fate_eq_self_iff.mp hkept).2.1 hundated

/-- A sweep without a mountain range ends, and evaporation is complete and exact exactly if nothing
beyond the limit has to be done and all grace that is looked at has a beginning. -/
theorem processEpoch_exact_iff (blake3 : Bytes → Hash) (hlists : db.Lists ids)
    (hbound : ∀ id obj g, db.objects id = some obj → obj.state = .grace →
      obj.graceEpoch = some g → g + engine.gracePeriod < 2 ^ 64) :
    ∃ s, engine.processEpoch blake3 db ids epoch = some s ∧
      (engine.Exact epoch db s.db ↔ engine.Covers epoch db ids) := by
  have hroom : HasRoom blake3 ids.length none := nofun
  obtain ⟨s, hs, hswept⟩ := processEpochInner_spec blake3 engine epoch db hlists.nodup hroom
  exact ⟨s, hs, covers_of_exact hlists hswept, exact_of_covers hlists hbound hswept⟩

/-- An object in grace since the first epoch. -/
def dueObject (b : UInt8) : StateObject where
  id := addressOf b
  owner := addressOf 9
  energy := 0
  halfLife := 10
  createdAt := 0
  lastRefreshed := 0
  state := .grace
  graceEpoch := some 1
  data := [b]
  decayCurve := none
  ladMode := none

/-- Two objects that are due seven epochs later. -/
def twoDue : StateDb := (StateDb.empty.putObject (dueObject 1)).putObject (dueObject 2)

lemma objects_twoDue (id : ObjectId) : twoDue.objects id =
    if id = addressOf 2 then some (dueObject 2)
    else if id = addressOf 1 then some (dueObject 1) else none := by
  simp [twoDue, StateDb.putObject, StateDb.empty, Function.update_apply, dueObject]

lemma lists_twoDue : twoDue.Lists [addressOf 1, addressOf 2] := by
  refine ⟨by decide, fun id => ?_⟩
  rw [objects_twoDue]
  split_ifs <;> simp [*]

theorem processEpoch_exact_twoDue :
    ∃ s, (new 7).processEpoch plainEnv.blake3 twoDue [addressOf 1, addressOf 2] 8 = some s ∧
      (new 7).Exact 8 twoDue s.db := by
  have hbound : ∀ id obj g, twoDue.objects id = some obj → obj.state = .grace →
      obj.graceEpoch = some g → g + (new 7).gracePeriod < 2 ^ 64 := by
    intro id obj g hobj _ hg
    rw [objects_twoDue] at hobj
    split_ifs at hobj <;> cases hobj <;> cases hg <;> decide
  have hcovers : (new 7).Covers 8 twoDue [addressOf 1, addressOf 2] := by
    refine ⟨fun id hid => by simp [new, EvaporChain.maxScanPerEpoch] at hid,
      fun id _ obj hobj => ?_⟩
    rw [objects_twoDue] at hobj
    split_ifs at hobj <;> cases hobj <;> decide
  have hsweep : ∃ s, (new 7).processEpoch plainEnv.blake3 twoDue [addressOf 1, addressOf 2] 8 =
      some s ∧ ((new 7).Exact 8 twoDue s.db ↔
        (new 7).Covers 8 twoDue [addressOf 1, addressOf 2]) :=
    processEpoch_exact_iff plainEnv.blake3 lists_twoDue hbound
  obtain ⟨s, hs, hiff⟩ := hsweep
  exact ⟨s, hs, hiff.mpr hcovers⟩

def numberedId (n : ℕ) : ObjectId := ⟨leBytes 32 n, leBytes_length 32 n⟩

def firstIds (n : ℕ) : List ObjectId := (List.range n).map numberedId

/-- An active object without energy. -/
def spentObject (id : ObjectId) : StateObject where
  id := id
  owner := addressOf 9
  energy := 0
  halfLife := 10
  createdAt := 0
  lastRefreshed := 0
  state := .active
  graceEpoch := none
  data := []
  decayCurve := none
  ladMode := none

/-- A database of active objects without energy. -/
def crowd (n : ℕ) : StateDb :=
  { StateDb.empty with
    objects := fun id => if id ∈ firstIds n then some (spentObject id) else none
    id_eq := fun h => by
      split_ifs at h
      exact (Option.some.inj h) ▸ rfl }

lemma objects_crowd {n : ℕ} {id : ObjectId} (h : id ∈ firstIds n) :
    (crowd n).objects id = some (spentObject id) := if_pos h

lemma numberedId_inj {m n : ℕ} (hm : m < 2 ^ 64) (hn : n < 2 ^ 64)
    (h : numberedId m = numberedId n) : m = n :=
  leBytes_inj (hm.trans (by decide)) (hn.trans (by decide)) (congrArg Subtype.val h)

lemma lists_crowd {n : ℕ} (hn : n < 2 ^ 64) : (crowd n).Lists (firstIds n) := by
  refine ⟨List.Nodup.map_on (fun i hi j hj h => ?_) nodup_range, fun id => ?_⟩
  · rw [mem_range] at hi hj
    exact numberedId_inj (hi.trans hn) (hj.trans hn) h
  · simp only [crowd]
    split_ifs with hid <;> simp [hid]

/-- One object more than the limit: the last one stays active without energy. -/
theorem processEpoch_leaves_spent :
    (crowd 50001).Lists (firstIds 50001) ∧
      ∃ s, (new 7).processEpoch plainEnv.blake3 (crowd 50001) (firstIds 50001) 100 = some s ∧
        ∃ obj, s.db.objects (numberedId 50000) = some obj ∧ obj.state = .active ∧
          currentEnergy 100 obj = 0 := by
  have hlists : (crowd 50001).Lists (firstIds 50001) := lists_crowd (by decide)
  have hroom : HasRoom plainEnv.blake3 (firstIds 50001).length none := nofun
  obtain ⟨s, hs, hswept⟩ :=
    processEpochInner_spec plainEnv.blake3 (new 7) 100 (crowd 50001) hlists.nodup hroom
  have htake : (firstIds 50001).take (new 7).maxScanPerEpoch = firstIds 50000 := by
    rw [firstIds, ← map_take, take_range]
    rfl
  have hlast : numberedId 50000 ∉ firstIds 50000 := by
    simp only [firstIds, List.mem_map, mem_range]
    rintro ⟨i, hi, h⟩
    have heq := numberedId_inj (hi.trans (by decide)) (by decide) h
    omega
  have hmem : numberedId 50000 ∈ firstIds 50001 :=
    List.mem_map_of_mem (List.mem_range.mpr (lt_add_one _))
  refine ⟨hlists, s, hs, spentObject (numberedId 50000), ?_, rfl, rfl⟩
  rw [htake] at hswept
  exact (hswept.objects_of_notMem hlast).trans (objects_crowd hmem)

/-! ### The order of the ids -/

variable (blake3) in
/-- What two nodes have to agree on: the root of the mountain range, the ghosts and the objects. -/
def outcome (s : Sweep) :
    Option Hash × (ObjectId → Option GhostRecord) × (ObjectId → Option StateObject) :=
  (s.mmr.bind (·.root (hashPair blake3) Hash.zero), s.db.ghosts, s.db.objects)

lemma perm_deaths {ids' : List ObjectId} (h : ids.Perm ids') :
    (engine.deaths epoch db ids).Perm (engine.deaths epoch db ids') :=
  (h.filterMap _).filter _

/-- A list with at most one element has one order. -/
lemma eq_of_perm_of_length_le_one {α : Type} {l l' : List α} (h : l.Perm l') (hl : l.length ≤ 1) :
    l = l' := by
  match l, hl with
  | [], _ => exact (List.nil_perm.mp h).symm
  | [a], _ => exact List.singleton_perm.mp h

/-- Sweeps in which the same objects die in the same order, and that leave the same objects. -/
lemma outcome_eq {s₀ s₁ s₂ : Sweep} {ids₁ ids₂ : List ObjectId}
    (h₁ : Swept blake3 engine epoch s₀ ids₁ s₁) (h₂ : Swept blake3 engine epoch s₀ ids₂ s₂)
    (hdeaths : engine.deaths epoch s₀.db ids₁ = engine.deaths epoch s₀.db ids₂)
    (hobjects : ∀ id, s₁.db.objects id = s₂.db.objects id) :
    outcome blake3 s₁ = outcome blake3 s₂ := by
  have hmmr : s₁.mmr = s₂.mmr := by
    have hmmr₁ := h₁.mmr
    rw [hdeaths, h₂.mmr] at hmmr₁
    exact (Option.some.inj hmmr₁).symm
  have hghosts : s₁.db.ghosts = s₂.db.ghosts := by
    funext id
    by_cases hid : ∃ obj ∈ engine.deaths epoch s₀.db ids₁, obj.id = id
    · obtain ⟨obj, hobj, rfl⟩ := hid
      obtain ⟨i, hi⟩ := mem_iff_getElem?.mp hobj
      rw [h₁.buried i obj hi, h₂.buried i obj (hdeaths ▸ hi)]
    · have hother : ∀ obj ∈ engine.deaths epoch s₀.db ids₁, obj.id ≠ id :=
        fun obj hobj heq => hid ⟨obj, hobj, heq⟩
      rw [h₁.ghosts id hother, h₂.ghosts id (hdeaths ▸ hother)]
  unfold outcome
  rw [hmmr, hghosts, funext hobjects]

/-- What nothing changes in any order: the limit is zero, no visit changes anything, or all ids are
visited and at most one object dies. -/
def OrderFree (engine : EvaporationEngine) (epoch : ℕ) (db : StateDb) (objectIds : List ObjectId) :
    Prop :=
  engine.maxScanPerEpoch = 0 ∨
    (∀ id obj, db.objects id = some obj → engine.fate epoch obj = some obj) ∨
    objectIds.length ≤ engine.maxScanPerEpoch ∧ (engine.deaths epoch db objectIds).length ≤ 1

lemma deaths_of_fate_eq (h : ∀ id obj, db.objects id = some obj → engine.fate epoch obj = some obj)
    (ids : List ObjectId) : engine.deaths epoch db ids = [] := by
  refine List.eq_nil_iff_forall_not_mem.mpr fun obj hobj => ?_
  obtain ⟨-, hobj, hdies⟩ := mem_deaths.mp hobj
  exact (fate_eq_self_iff.mp (h obj.id obj hobj)).1 hdies

lemma outcome_eq_of_orderFree {mmr : MerkleMountainRange Hash} {ids₁ ids₂ : List ObjectId}
    {s₁ s₂ : Sweep} (hperm : ids₁.Perm ids₂) (hfree : OrderFree engine epoch db ids₁)
    (h₁ : Swept blake3 engine epoch ⟨db, some mmr, [], [], 0, 0⟩
      (ids₁.take engine.maxScanPerEpoch) s₁)
    (h₂ : Swept blake3 engine epoch ⟨db, some mmr, [], [], 0, 0⟩
      (ids₂.take engine.maxScanPerEpoch) s₂) : outcome blake3 s₁ = outcome blake3 s₂ := by
  rcases hfree with hlimit | hfate | ⟨hall, hone⟩
  · rw [hlimit, take_zero] at h₁ h₂
    refine outcome_eq h₁ h₂ rfl fun id => ?_
    rw [h₁.objects, h₂.objects]
  · refine outcome_eq h₁ h₂ ?_ fun id => ?_
    · rw [deaths_of_fate_eq hfate, deaths_of_fate_eq hfate]
    · have hkept : (db.objects id).bind (engine.fate epoch) = db.objects id := by
        cases hobj : db.objects id with
        | none => rfl
        | some obj => exact hfate id obj hobj
      rw [h₁.objects, h₂.objects, hkept, ite_self, ite_self]
  · have hall₂ := hperm.length_eq ▸ hall
    rw [take_of_length_le hall] at h₁
    rw [take_of_length_le hall₂] at h₂
    refine outcome_eq h₁ h₂ ?_ fun id => ?_
    · exact eq_of_perm_of_length_le_one (perm_deaths hperm) hone
    · rw [h₁.objects, h₂.objects]
      simp [hperm.mem_iff]

section Order

variable {mmr : MerkleMountainRange Hash} {leaves : List Hash}
  (hmmr : MerkleMountainRange.ofLeaves (hashPair blake3) leaves = some mmr)
include hmmr

lemma processEpochWithMmr_spec (hlists : db.Lists ids)
    (hroom : leaves.length + ids.length < 2 ^ 64) :
    ∃ s, engine.processEpochWithMmr blake3 db ids epoch mmr = some s ∧
      Swept blake3 engine epoch ⟨db, some mmr, [], [], 0, 0⟩
        (ids.take engine.maxScanPerEpoch) s := by
  refine processEpochInner_spec blake3 engine epoch db hlists.nodup ?_
  rintro _ ⟨⟩
  exact ⟨leaves, hmmr, hroom⟩

section Agreement

variable (hlists : db.Lists ids) (hroom : leaves.length + ids.length < 2 ^ 64)
  (heq : ∀ ids₁ ids₂, db.Lists ids₁ → db.Lists ids₂ →
    (engine.processEpochWithMmr blake3 db ids₁ epoch mmr).map (outcome blake3) =
      (engine.processEpochWithMmr blake3 db ids₂ epoch mmr).map (outcome blake3))
include hlists hroom heq

/-- If a visit changes an object and the limit cuts off some ids, the order decides. -/
lemma length_le_of_outcome_eq (hlimit : engine.maxScanPerEpoch ≠ 0) {id : ObjectId}
    {obj : StateObject} (hobj : db.objects id = some obj)
    (hfate : engine.fate epoch obj ≠ some obj) : ids.length ≤ engine.maxScanPerEpoch := by
  by_contra! hlt
  have hid : id ∈ ids := (hlists.mem_iff id).mpr (by rw [hobj]; rfl)
  have hperm : (id :: ids.erase id).Perm ids := (perm_cons_erase hid).symm
  have hfirst := hlists.of_perm hperm
  have hlast := hlists.of_perm ((perm_append_singleton ..).trans hperm)
  have hlength : (ids.erase id).length + 1 = ids.length := by
    simpa using hperm.length_eq
  obtain ⟨s₁, hs₁, h₁⟩ := processEpochWithMmr_spec hmmr hfirst (by simp; omega)
  obtain ⟨s₂, hs₂, h₂⟩ := processEpochWithMmr_spec hmmr hlast (by simp; omega)
  have hobjects : s₁.db.objects id = s₂.db.objects id := by
    have houtcome := heq _ _ hfirst hlast
    rw [hs₁, hs₂] at houtcome
    exact congrFun (congrArg (·.2.2) (Option.some.inj houtcome)) id
  -- listed first the id is visited, listed last it is not
  have hvisited : id ∈ (id :: ids.erase id).take engine.maxScanPerEpoch := by
    rw [take_cons (pos_of_ne_zero hlimit)]
    exact .head _
  have hskipped : id ∉ (ids.erase id ++ [id]).take engine.maxScanPerEpoch := by
    rw [take_append_of_le_length (by omega)]
    exact fun hmem => hlists.nodup.not_mem_erase (mem_of_mem_take hmem)
  rw [h₁.objects, if_pos hvisited, h₂.objects_of_notMem hskipped] at hobjects
  rw [hobj] at hobjects
  exact hfate hobjects

/-- If two objects die in a sweep over all ids, the order decides. -/
lemma length_deaths_le_of_outcome_eq (hall : ids.length ≤ engine.maxScanPerEpoch) :
    (engine.deaths epoch db ids).length ≤ 1 := by
  have hreverse : db.Lists ids.reverse := hlists.of_perm (reverse_perm ids)
  obtain ⟨s₁, hs₁, h₁⟩ := processEpochWithMmr_spec hmmr hlists hroom
  obtain ⟨s₂, hs₂, h₂⟩ := processEpochWithMmr_spec hmmr hreverse (by rwa [length_reverse])
  rw [take_of_length_le hall] at h₁
  rw [take_of_length_le (by rwa [length_reverse])] at h₂
  have hghosts (id : ObjectId) : s₁.db.ghosts id = s₂.db.ghosts id := by
    have houtcome := heq _ _ hlists hreverse
    rw [hs₁, hs₂] at houtcome
    exact congrFun (congrArg (·.2.1) (Option.some.inj houtcome)) id
  have hdeaths : engine.deaths epoch db ids.reverse = (engine.deaths epoch db ids).reverse := by
    simp [deaths, filterMap_reverse]
  -- the first that dies is the last that dies in the other order
  cases hlist : engine.deaths epoch db ids with
  | nil => simp
  | cons obj rest =>
    have hfirst := h₁.buried 0 obj (by simp [hlist])
    have hlast := h₂.buried rest.length obj (by simp [hdeaths, hlist])
    have hposition := congrArg (Option.map GhostRecord.mmrPosition)
      (hfirst.symm.trans ((hghosts obj.id).trans hlast))
    simp [ghostOf] at hposition
    simp [hposition]

end Agreement

/-- The outcome of a sweep is the same for every order of the ids exactly if the limit is zero, no
visit changes anything, or all ids are visited and at most one object dies. -/
theorem processEpochWithMmr_order_iff (hlists : db.Lists ids)
    (hroom : leaves.length + ids.length < 2 ^ 64) :
    (∀ ids₁ ids₂, db.Lists ids₁ → db.Lists ids₂ →
      (engine.processEpochWithMmr blake3 db ids₁ epoch mmr).map (outcome blake3) =
        (engine.processEpochWithMmr blake3 db ids₂ epoch mmr).map (outcome blake3)) ↔
      OrderFree engine epoch db ids := by
  constructor
  · intro heq
    by_cases hlimit : engine.maxScanPerEpoch = 0
    · exact .inl hlimit
    by_cases hfate : ∀ id obj, db.objects id = some obj → engine.fate epoch obj = some obj
    · exact .inr (.inl hfate)
    · push Not at hfate
      obtain ⟨id, obj, hobj, hchange⟩ := hfate
      have hall := length_le_of_outcome_eq hmmr hlists hroom heq hlimit hobj hchange
      exact .inr (.inr ⟨hall, length_deaths_le_of_outcome_eq hmmr hlists hroom heq hall⟩)
  · intro hfree ids₁ ids₂ hlists₁ hlists₂
    have hperm₁ := hlists.perm hlists₁
    have hfree₁ : OrderFree engine epoch db ids₁ := by
      unfold OrderFree at hfree ⊢
      rwa [← hperm₁.length_eq, ← (perm_deaths hperm₁).length_eq]
    obtain ⟨s₁, hs₁, h₁⟩ := processEpochWithMmr_spec hmmr hlists₁ (by rwa [← hperm₁.length_eq])
    obtain ⟨s₂, hs₂, h₂⟩ := processEpochWithMmr_spec hmmr hlists₂ (by rwa [← (hlists.perm
      hlists₂).length_eq])
    rw [hs₁, hs₂, Option.map_some, Option.map_some,
      outcome_eq_of_orderFree (hlists₁.perm hlists₂) hfree₁ h₁ h₂]

end Order

/-- Two objects, of which one is due. -/
def oneDue : StateDb :=
  (StateDb.empty.putObject (dueObject 1)).putObject { dueObject 2 with graceEpoch := some 8 }

lemma lists_oneDue : oneDue.Lists [addressOf 1, addressOf 2] := by
  refine ⟨by decide, fun id => ?_⟩
  have hne : addressOf 1 ≠ addressOf 2 := by decide
  by_cases h₁ : id = addressOf 1 <;> by_cases h₂ : id = addressOf 2 <;>
    simp [h₁, h₂, hne, oneDue, StateDb.putObject, StateDb.empty, dueObject]

theorem processEpochWithMmr_order_oneDue :
    OrderFree (new 7) 8 oneDue [addressOf 1, addressOf 2] ∧
      ((new 7).deaths 8 oneDue [addressOf 1, addressOf 2]).length = 1 ∧
      ((new 7).processEpochWithMmr plainEnv.blake3 oneDue [addressOf 1, addressOf 2] 8 .new).map
          (outcome plainEnv.blake3) =
        ((new 7).processEpochWithMmr plainEnv.blake3 oneDue [addressOf 2, addressOf 1] 8 .new).map
          (outcome plainEnv.blake3) := by
  have hfree : OrderFree (new 7) 8 oneDue [addressOf 1, addressOf 2] :=
    .inr (.inr ⟨by decide, by decide +kernel⟩)
  have hnew : MerkleMountainRange.ofLeaves (hashPair plainEnv.blake3) [] = some .new := rfl
  exact ⟨hfree, by decide +kernel, (processEpochWithMmr_order_iff hnew lists_oneDue
    (by decide)).mpr hfree _ _ lists_oneDue (lists_oneDue.of_perm (List.Perm.swap ..))⟩

/-- A hash that tells the inputs below apart. -/
def checksum (bytes : Bytes) : Hash :=
  numberedId (bytes.foldl (fun acc b => (257 * acc + b.toNat) % (2 ^ 61 - 1)) 7)

def sweepTwo (ids : List ObjectId) : Option Sweep :=
  (new 7).processEpochWithMmr checksum twoDue ids 8 .new

/-- Two nodes that list the same two ids in different orders end with different roots and ghosts. -/
theorem processEpochWithMmr_order_matters :
    twoDue.Lists [addressOf 1, addressOf 2] ∧ twoDue.Lists [addressOf 2, addressOf 1] ∧
      (sweepTwo [addressOf 1, addressOf 2]).isSome ∧ (sweepTwo [addressOf 2, addressOf 1]).isSome ∧
      (sweepTwo [addressOf 1, addressOf 2]).map (fun s => (outcome checksum s).1) ≠
        (sweepTwo [addressOf 2, addressOf 1]).map (fun s => (outcome checksum s).1) ∧
      (sweepTwo [addressOf 1, addressOf 2]).map (·.db.ghosts (addressOf 1)) ≠
        (sweepTwo [addressOf 2, addressOf 1]).map (·.db.ghosts (addressOf 1)) :=
  ⟨lists_twoDue, lists_twoDue.of_perm (List.Perm.swap ..), by decide +kernel, by decide +kernel,
    by decide +kernel, by decide +kernel⟩

end EvaporationEngine

end EvaporChain
