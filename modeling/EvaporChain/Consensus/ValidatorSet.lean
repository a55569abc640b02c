import EvaporChain.Core.Saturating
import EvaporChain.Core.Bytes
import EvaporChain.Core.Quorum

/-!
# Validators and validator sets

The part of `evaporchain-consensus-types` that weighs validators: effective stake, the total
of the set, the quorum threshold, slashing and stake-weighted leader selection.
-/

namespace EvaporChain

open Core

/-- Stake below which a slashed validator is jailed. -/
def minStake : ℕ := 100

/-- A validator as the set stores it. Identifiers, stakes and epochs are `u64`. -/
structure ValidatorInfo where
  id : ℕ
  /-- Self-bonded stake. -/
  stake : ℕ
  /-- Registered BLS public key. -/
  blsPublicKey : Option Bytes := none
  vrfPublicKey : Option Bytes := none
  jailed : Bool := false
  /-- Whether the proof of possession of `blsPublicKey` was verified. -/
  popVerified : Bool := false
  /-- Key before the last rotation, accepted until `blsPrevKeyExpiryEpoch`. -/
  blsPublicKeyPrev : Option Bytes := none
  blsPrevKeyExpiryEpoch : Option ℕ := none
  /-- Stake delegated to this validator, cached from the state. -/
  delegatedStake : ℕ := 0
deriving DecidableEq, Repr

/-- Voting power: own stake plus delegated stake. -/
def ValidatorInfo.effectiveStake (v : ValidatorInfo) : ℕ := satAdd v.stake v.delegatedStake

/-- A validator set. Nothing forces the identifiers to be distinct; look-ups take the first. -/
structure ValidatorSet where
  validators : List ValidatorInfo
deriving DecidableEq, Repr

namespace ValidatorSet

variable (vs : ValidatorSet)

/-- First validator with the given id. -/
def get (id : ℕ) : Option ValidatorInfo :=
  vs.validators.find? (·.id == id)

/-- Change the first validator with the given id in place (`get_mut`). -/
def modify (id : ℕ) (f : ValidatorInfo → ValidatorInfo) : ValidatorSet :=
  ⟨go vs.validators⟩
where
  go : List ValidatorInfo → List ValidatorInfo
    | [] => []
    | v :: vs => if v.id == id then f v :: vs else v :: go vs

/-- Stake of a validator's own, jailed or not. -/
def ownStake (vid : ℕ) : ℕ := ((vs.get vid).map (·.stake)).getD 0

def delegatedTo (vid : ℕ) : ℕ := ((vs.get vid).map (·.delegatedStake)).getD 0

/-- Add a validator, unless there is one with its id; says whether it was added. -/
def addValidator (info : ValidatorInfo) : ValidatorSet × Bool :=
  if (vs.get info.id).isSome then (vs, false) else (⟨vs.validators ++ [info]⟩, true)

/-- Remove every validator with an id; says whether there was one. -/
def removeValidator (id : ℕ) : ValidatorSet × Bool :=
  let rest := vs.validators.filter (·.id != id)
  (⟨rest⟩, decide (rest.length < vs.validators.length))

/-- Identifiers in the order of the set. -/
def ids : List ℕ := vs.validators.map (·.id)

def active : List ValidatorInfo := vs.validators.filter (!·.jailed)

/-- Effective stake of the non-jailed validators. -/
def totalStake : ℕ := satSum (vs.active.map (·.effectiveStake))

/-- Number of non-jailed validators. -/
def activeCount : ℕ := vs.active.length

/-- Whether the set is non-empty and every validator has a registered key. -/
def hasBlsKeys : Bool :=
  !vs.validators.isEmpty && vs.validators.all (·.blsPublicKey.isSome)

/-- Least stake that is strictly more than two thirds of the total. -/
def stakeQuorumThreshold : ℕ :=
  if vs.totalStake = 0 then u64Max else vs.totalStake * 2 / 3 + 1

/-- Apply a precomputed slash; returns the stake actually deducted. -/
def slashWithAmount (id amount : ℕ) (jail : Bool) : ValidatorSet × ℕ :=
  match vs.get id with
  | none => (vs, 0)
  | some v =>
    let deducted := min amount v.stake
    (vs.modify id fun v =>
      { v with
        stake := v.stake - deducted
        jailed := v.jailed || jail || decide (v.stake - deducted < minStake) }, deducted)

/-- ASCII of `leader`. -/
def leaderTag : Bytes := [108, 101, 97, 100, 101, 114]

/-- Hash of an epoch under the zero seed: the first eight bytes of a digest read as a `u64`. -/
def epochHash (blake3 : Bytes → Hash) (epoch : ℕ) : ℕ :=
  leValue ((blake3 (leBytes 8 epoch ++ leaderTag ++ Hash.zero.toList)).toList.take 8)

/-- Stake-weighted choice of the leader of an epoch among the non-jailed validators. -/
def leaderForEpoch (blake3 : Bytes → Hash) (vs : ValidatorSet) (epoch : ℕ) : Option ValidatorInfo :=
  let total := satSum (vs.active.map (·.stake))
  if vs.active = [] then none
  else if total = 0 then vs.active[epoch % vs.active.length]?
  else (pick (epochHash blake3 epoch % total) 0 vs.active).or vs.active.getLast?
where
  /-- First validator at which the accumulated stake passes `index`. -/
  pick (index : ℕ) : ℕ → List ValidatorInfo → Option ValidatorInfo
    | _, [] => none
    | acc, v :: vs =>
      if index < satAdd acc v.stake then some v else pick index (satAdd acc v.stake) vs

/-! ### Changing one validator -/

lemma id_of_get {vs : ValidatorSet} {id : ℕ} {v : ValidatorInfo} (h : vs.get id = some v) :
    v.id = id := by
  simpa using List.find?_some h

variable {f : ValidatorInfo → ValidatorInfo}

section

variable (vs : ValidatorSet)

lemma ids_modify (id : ℕ) (hf : ∀ v, (f v).id = v.id) : (vs.modify id f).ids = vs.ids := by
  obtain ⟨l⟩ := vs
  simp only [ids, modify]
  induction l with
  | nil => rfl
  | cons v l ih =>
    simp only [modify.go]
    split_ifs
    · simp [hf]
    · simp [ih]

lemma get_modify (id id' : ℕ) (hf : ∀ v, (f v).id = v.id) :
    (vs.modify id f).get id' = if id' = id then (vs.get id).map f else vs.get id' := by
  obtain ⟨l⟩ := vs
  simp only [get, modify]
  induction l with
  | nil => simp [modify.go]
  | cons v l ih =>
    by_cases hv : v.id = id
    · by_cases hid : id' = id
      · subst hid
        simp [modify.go, hv, hf]
      · simp [modify.go, hv, hf, hid, Ne.symm hid]
    · by_cases hid : id' = id
      · subst hid
        simpa [modify.go, hv] using ih
      · by_cases hv' : v.id = id'
        · subst hv'
          simp [modify.go, hv]
        · simpa [modify.go, hv, hv'] using ih

lemma get_modify_of_ne {id id' : ℕ} (hne : id' ≠ id) (hf : ∀ v, (f v).id = v.id) :
    (vs.modify id f).get id' = vs.get id' := by
  rw [get_modify vs id id' hf, if_neg hne]

lemma modify_eq_self (id : ℕ) (hf : ∀ v, vs.get id = some v → f v = v) : vs.modify id f = vs := by
  obtain ⟨l⟩ := vs
  simp only [modify, get, ValidatorSet.mk.injEq] at hf ⊢
  induction l with
  | nil => rfl
  | cons v l ih =>
    by_cases hv : v.id = id
    · simp [modify.go, hv, hf v (by simp [hv])]
    · simp only [modify.go, hv, beq_iff_eq, if_false, List.cons.injEq, true_and]
      exact ih fun w hw => hf w (by simpa [hv] using hw)

lemma get_addValidator (info : ValidatorInfo) (id : ℕ) (hnew : vs.get info.id = none) :
    (vs.addValidator info).1.get id = if id = info.id then some info else vs.get id := by
  rw [addValidator, if_neg (by simp [hnew])]
  simp only [get, List.find?_append] at hnew ⊢
  split_ifs with hid
  · subst hid
    simp [hnew]
  · have hne : (info.id == id) = false := by simpa using Ne.symm hid
    simp [hne]

lemma get_removeValidator (id id' : ℕ) :
    (vs.removeValidator id).1.get id' = if id' = id then none else vs.get id' := by
  simp only [removeValidator, get, List.find?_filter]
  split_ifs with hid
  · subst hid
    simp
  · congr 1
    funext v
    by_cases hv : v.id = id'
    · simp [hv, hid]
    · simp [hv]

end

/-- The set `vs'` came out of `vs` by slashing: nobody gained stake, and no key got lost. -/
structure SlashedTo (vs vs' : ValidatorSet) : Prop where
  ids : vs'.ids = vs.ids
  get : ∀ id v', vs'.get id = some v' → ∃ v, vs.get id = some v ∧ v'.stake ≤ v.stake ∧
    v'.delegatedStake = v.delegatedStake ∧ (v.blsPublicKey.isSome → v'.blsPublicKey.isSome)

lemma SlashedTo.refl (vs : ValidatorSet) : SlashedTo vs vs :=
  ⟨rfl, fun _ v h => ⟨v, h, le_rfl, rfl, id⟩⟩

lemma SlashedTo.trans {vs₁ vs₂ vs₃ : ValidatorSet} (h₁ : SlashedTo vs₁ vs₂)
    (h₂ : SlashedTo vs₂ vs₃) : SlashedTo vs₁ vs₃ := by
  refine ⟨h₂.ids.trans h₁.ids, fun id v₃ hv₃ => ?_⟩
  obtain ⟨v₂, hv₂, hstake, hdel, hkey⟩ := h₂.get id v₃ hv₃
  obtain ⟨v₁, hv₁, hstake', hdel', hkey'⟩ := h₁.get id v₂ hv₂
  exact ⟨v₁, hv₁, hstake.trans hstake', hdel.trans hdel', hkey ∘ hkey'⟩

variable (vs : ValidatorSet)

lemma slashedTo_modify (id : ℕ) (hid : ∀ v, (f v).id = v.id) (hstake : ∀ v, (f v).stake ≤ v.stake)
    (hdel : ∀ v, (f v).delegatedStake = v.delegatedStake)
    (hkey : ∀ v, v.blsPublicKey.isSome → (f v).blsPublicKey.isSome) :
    SlashedTo vs (vs.modify id f) := by
  refine ⟨ids_modify vs id hid, fun id' v' hv' => ?_⟩
  rw [get_modify vs id id' hid] at hv'
  split_ifs at hv' with heq
  · obtain ⟨v, hv, rfl⟩ := Option.map_eq_some_iff.mp hv'
    exact ⟨v, heq ▸ hv, hstake v, hdel v, hkey v⟩
  · exact ⟨v', hv', le_rfl, rfl, fun h => h⟩

lemma slashedTo_slashWithAmount (id amount : ℕ) (jail : Bool) :
    SlashedTo vs (vs.slashWithAmount id amount jail).1 := by
  simp only [slashWithAmount]
  split
  · exact .refl vs
  · exact slashedTo_modify vs id (fun _ => rfl) (fun _ => Nat.sub_le _ _) (fun _ => rfl)
      fun _ h => h

lemma get_slashWithAmount_of_ne {id id' : ℕ} (hne : id' ≠ id) (amount : ℕ)
    (jail : Bool) : (vs.slashWithAmount id amount jail).1.get id' = vs.get id' := by
  simp only [slashWithAmount]
  split
  · rfl
  · exact get_modify_of_ne vs hne fun _ => rfl

/-- Every validator has a registered key. -/
def Keyed : Prop := ∀ id v, vs.get id = some v → v.blsPublicKey.isSome

variable {vs}

lemma Keyed.slashed {vs' : ValidatorSet} (h : vs.Keyed) (hslash : vs.SlashedTo vs') :
    vs'.Keyed := by
  intro id v' hv'
  obtain ⟨v, hv, -, -, hkey⟩ := hslash.get id v' hv'
  exact hkey (h id v hv)

lemma Keyed.modify (h : vs.Keyed) (id : ℕ) (hid : ∀ v, (f v).id = v.id)
    (hkey : ∀ v, v.blsPublicKey.isSome → (f v).blsPublicKey.isSome) : (vs.modify id f).Keyed := by
  intro id' v' hv'
  rw [get_modify vs id id' hid] at hv'
  split_ifs at hv' with heq
  · obtain ⟨v, hv, rfl⟩ := Option.map_eq_some_iff.mp hv'
    exact hkey v (h id v hv)
  · exact h id' v' hv'

end ValidatorSet

end EvaporChain
