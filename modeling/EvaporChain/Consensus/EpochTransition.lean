import EvaporChain.Consensus.Certificate

/-!
# Transitions of the validator set

The queue of `validator_set.rs`: joins, leaves and stake updates wait for their epoch and are
applied at an epoch boundary, within a bound on the number of changes and a budget for the stake
that moves. The budget is taken from and charged to own stakes; the weights of quorums also have the
stake delegated to validators.
-/

namespace EvaporChain

open Core Finset Function List

/-! ### The queue -/

/-- Fewest active validators a leave may leave behind. -/
def minValidators : ℕ := 3

def stakeUpdateDelayEpochs : ℕ := 1
def bondingPeriodEpochs : ℕ := 2
def unbondingPeriodEpochs : ℕ := 4

inductive ValidatorSetChange
  | join (info : ValidatorInfo)
  | leave (validatorId : ℕ)
  | stakeUpdate (validatorId newStake : ℕ)

structure PendingJoin where
  info : ValidatorInfo
  readyAtEpoch : ℕ

structure PendingLeave where
  validatorId : ℕ
  unlockAtEpoch : ℕ

structure PendingStakeUpdate where
  validatorId : ℕ
  newStake : ℕ
  readyAtEpoch : ℕ

structure EpochTransitionResult where
  applied : List String := []
  deferred : List String := []
  rejected : List String := []

structure EpochTransitionManager where
  pendingJoins : List PendingJoin := []
  pendingLeaves : List PendingLeave := []
  pendingStakeUpdates : List PendingStakeUpdate := []
  currentEpoch : ℕ := 0

/-- Queue a change, in unchecked `u64` arithmetic. -/
def EpochTransitionManager.queueChange (m : EpochTransitionManager) (change : ValidatorSetChange)
    (currentEpoch : ℕ) : EpochTransitionManager :=
  match change with
  | .join info =>
    { m with
      pendingJoins := m.pendingJoins ++ [⟨info, (currentEpoch + bondingPeriodEpochs) % 2 ^ 64⟩] }
  | .leave validatorId =>
    { m with
      pendingLeaves := m.pendingLeaves ++
        [⟨validatorId, (currentEpoch + unbondingPeriodEpochs) % 2 ^ 64⟩] }
  | .stakeUpdate validatorId newStake =>
    { m with
      pendingStakeUpdates := m.pendingStakeUpdates ++
        [⟨validatorId, newStake, (currentEpoch + stakeUpdateDelayEpochs) % 2 ^ 64⟩] }

/-! ### One transition -/

/-- A `u64` as a double: the nearest number with 53 significant bits, ties to even. -/
def asF64 (n : ℕ) : ℕ :=
  if n < 2 ^ 53 then n
  else
    let shift := n.log2 - 52
    let q := n / 2 ^ shift
    let r := n % 2 ^ shift
    if 2 * r < 2 ^ shift ∨ (2 * r = 2 ^ shift ∧ q % 2 = 0) then q * 2 ^ shift
    else (q + 1) * 2 ^ shift

structure TransitionLimits where
  epoch : ℕ
  enforceStakeChurn : Bool
  maxChurn : ℕ
  stakeBudget : ℕ

/-- Bounds for a set: a third of the active validators, rounded up, and a sixteenth of the own
stakes. The product with 0.33 is exact for every set that fits in memory. -/
def TransitionLimits.of (vs : ValidatorSet) (epoch : ℕ) (enforceStakeChurn : Bool) :
    TransitionLimits where
  epoch := epoch
  enforceStakeChurn := enforceStakeChurn
  maxChurn := max 1 ((33 * vs.activeCount + 99) / 100)
  stakeBudget := asF64 ((vs.validators.map (·.stake)).sum % 2 ^ 64) / 16

structure Transition where
  manager : EpochTransitionManager
  validatorSet : ValidatorSet
  result : EpochTransitionResult
  changesThisEpoch : ℕ
  stakeChurned : ℕ

namespace Transition

variable (l : TransitionLimits) (t : Transition) (text : String)

def apply : Transition :=
  { t with result := { t.result with applied := t.result.applied ++ [text] } }

def defer : Transition :=
  { t with result := { t.result with deferred := t.result.deferred ++ [text] } }

def reject : Transition :=
  { t with result := { t.result with rejected := t.result.rejected ++ [text] } }

variable (amount : ℕ)

/-- Whether an amount is beyond what is left of the budget. -/
def exceeds : Bool :=
  l.enforceStakeChurn && decide (l.stakeBudget < (t.stakeChurned + amount) % 2 ^ 64)

def charge : Transition :=
  { t with stakeChurned := (t.stakeChurned + amount) % 2 ^ 64 }

/-- Charge an amount for a validator that came or went. -/
def chargeChange : Transition :=
  { t.charge amount with changesThisEpoch := t.changesThisEpoch + 1 }

def requeueUpdate (u : PendingStakeUpdate) : Transition :=
  { t with
    manager := { t.manager with
      pendingStakeUpdates := t.manager.pendingStakeUpdates ++
        [{ u with readyAtEpoch := (l.epoch + 1) % 2 ^ 64 }] } }

def requeueJoin (pj : PendingJoin) : Transition :=
  { t with
    manager := { t.manager with
      pendingJoins := t.manager.pendingJoins ++
        [{ pj with readyAtEpoch := (l.epoch + 1) % 2 ^ 64 }] } }

def requeueLeave (pl : PendingLeave) : Transition :=
  { t with
    manager := { t.manager with
      pendingLeaves := t.manager.pendingLeaves ++
        [{ pl with unlockAtEpoch := (l.epoch + 1) % 2 ^ 64 }] } }

def updateStep (u : PendingStakeUpdate) : Transition :=
  let vid := u.validatorId
  let new := u.newStake
  if u.newStake < minStake then
    t.reject s!"StakeUpdate for validator {vid} rejected: {new} < MIN_STAKE {minStake}"
  else
    match t.validatorSet.get u.validatorId with
    | none   => t.reject s!"StakeUpdate for validator {vid} rejected: not found"
    | some v =>
      let old := v.stake
      let delta := Nat.dist v.stake u.newStake
      if t.exceeds l delta then
        (t.requeueUpdate l u).defer
          s!"StakeUpdate for validator {vid} deferred: stake-churn budget reached"
      else
        { t.charge delta with
          validatorSet := t.validatorSet.modify u.validatorId fun v =>
            { v with stake := u.newStake } }.apply
          s!"Validator {vid} stake updated: {old} → {new}"

def joinStep (pj : PendingJoin) : Transition :=
  let vid := pj.info.id
  if l.maxChurn ≤ t.changesThisEpoch then
    (t.requeueJoin l pj).defer s!"Join for validator {vid} deferred: max churn reached"
  else if t.exceeds l pj.info.stake then
    (t.requeueJoin l pj).defer s!"Join for validator {vid} deferred: stake-churn budget reached"
  else if t.validatorSet.validators.any (·.id == pj.info.id) then
    t.reject s!"Join for validator {vid} rejected: already exists"
  else
    { t.chargeChange pj.info.stake with
      validatorSet := (t.validatorSet.addValidator pj.info).1 }.apply s!"Validator {vid} joined"

def leaveStep (pl : PendingLeave) : Transition :=
  let vid := pl.validatorId
  if l.maxChurn ≤ t.changesThisEpoch then
    (t.requeueLeave l pl).defer s!"Leave for validator {vid} deferred: max churn reached"
  else
    let leaveStake := t.validatorSet.ownStake pl.validatorId
    if t.exceeds l leaveStake then
      (t.requeueLeave l pl).defer s!"Leave for validator {vid} deferred: stake-churn budget reached"
    else if t.validatorSet.activeCount ≤ minValidators then
      t.reject
        s!"Leave for validator {vid} rejected: would drop below MIN_VALIDATORS ({minValidators})"
    else
      match t.validatorSet.removeValidator pl.validatorId with
      | (rest, true) =>
        { t.chargeChange leaveStake with validatorSet := rest }.apply s!"Validator {vid} left"
      | (_, false)   => t.reject s!"Leave for validator {vid} rejected: not found"

/-- Stake updates; without enforcement they need not wait. -/
def updates : Transition :=
  let isReady (u : PendingStakeUpdate) : Bool :=
    !l.enforceStakeChurn || decide (u.readyAtEpoch ≤ l.epoch)
  let (ready, waiting) := t.manager.pendingStakeUpdates.partition isReady
  let t := { t with manager := { t.manager with pendingStakeUpdates := waiting } }
  let t := waiting.foldl (fun t u =>
    let vid := u.validatorId
    let epoch := u.readyAtEpoch
    t.defer s!"StakeUpdate for validator {vid} deferred until epoch {epoch}") t
  ready.foldl (updateStep l) t

def joins : Transition :=
  let (ready, waiting) := t.manager.pendingJoins.partition fun pj =>
    decide (pj.readyAtEpoch ≤ l.epoch)
  let t := { t with manager := { t.manager with pendingJoins := waiting } }
  let t := waiting.foldl (fun t pj =>
    let vid := pj.info.id
    let epoch := pj.readyAtEpoch
    t.defer s!"Join for validator {vid} deferred until epoch {epoch}") t
  ready.foldl (joinStep l) t

def leaves : Transition :=
  let (ready, waiting) := t.manager.pendingLeaves.partition fun pl =>
    decide (pl.unlockAtEpoch ≤ l.epoch)
  let t := { t with manager := { t.manager with pendingLeaves := waiting } }
  let t := waiting.foldl (fun t pl =>
    let vid := pl.validatorId
    let epoch := pl.unlockAtEpoch
    t.defer s!"Leave for validator {vid} deferred: unbonding until epoch {epoch}") t
  ready.foldl (leaveStep l) t

end Transition

def EpochTransitionManager.applyEpochTransition (m : EpochTransitionManager) (vs : ValidatorSet)
    (epoch : ℕ) (enforceStakeChurn : Bool) :
    EpochTransitionManager × ValidatorSet × EpochTransitionResult :=
  let l := TransitionLimits.of vs epoch enforceStakeChurn
  let t := (((⟨{ m with currentEpoch := epoch }, vs, {}, 0, 0⟩ : Transition).updates l).joins
    l).leaves l
  (t.manager, t.validatorSet, t.result)

/-! ### Stakes along a transition -/

namespace ValidatorSet

variable (vs : ValidatorSet)

section

variable (f : ValidatorInfo → ℕ)

/-- A number of each validator, zero outside of the set. -/
def numberOf (vid : ℕ) : ℕ := ((vs.get vid).map f).getD 0

lemma numberOf_modify {id : ℕ} {g : ValidatorInfo → ValidatorInfo} {v : ValidatorInfo}
    (hid : ∀ v, (g v).id = v.id) (hv : vs.get id = some v) :
    (vs.modify id g).numberOf f = Function.update (vs.numberOf f) id (f (g v)) := by
  funext id'
  rw [numberOf, get_modify vs id id' hid, update_apply]
  split_ifs
  · simp [hv]
  · rfl

lemma numberOf_addValidator {info : ValidatorInfo} (h : vs.get info.id = none) :
    (vs.addValidator info).1.numberOf f = Function.update (vs.numberOf f) info.id (f info) := by
  funext id
  rw [numberOf, get_addValidator vs info id h, update_apply]
  split_ifs <;> rfl

lemma numberOf_removeValidator (id : ℕ) :
    (vs.removeValidator id).1.numberOf f = Function.update (vs.numberOf f) id 0 := by
  funext id'
  rw [numberOf, get_removeValidator, update_apply]
  split_ifs <;> rfl

end

/-- A set whose own stakes are below a bound. -/
lemma ownStake_lt {n : ℕ} (hn : 0 < n) (h : ∀ v ∈ vs.validators, v.stake < n) (id : ℕ) :
    vs.ownStake id < n := by
  cases hv : vs.get id with
  | none => simpa [ownStake, hv] using hn
  | some v =>
    have hmem := h v (List.mem_of_find?_eq_some hv)
    simpa [ownStake, hv] using hmem

/-- Voting weights move no further than own and delegated stakes together. -/
lemma dist_stakeOf_le (vs' : ValidatorSet) (id : ℕ) :
    Nat.dist (vs'.stakeOf id) (vs.stakeOf id) ≤ Nat.dist (vs'.ownStake id) (vs.ownStake id) +
        Nat.dist (vs'.delegatedTo id) (vs.delegatedTo id) := by
  have hstakeOf (vs : ValidatorSet) :
      vs.stakeOf id = satAdd (vs.ownStake id) (vs.delegatedTo id) := by
    cases hv : vs.get id <;>
      simp [stakeOf, ownStake, delegatedTo, ValidatorInfo.effectiveStake, hv, satAdd]
  rw [hstakeOf, hstakeOf]
  simp only [Nat.dist, satAdd]
  omega

end ValidatorSet

/-- Changing one value of a function moves it further away from another by the size of the change
at most. -/
lemma sum_dist_update_le (U : Finset ℕ) (f g : ℕ → ℕ) (i x : ℕ) :
    ∑ id ∈ U, Nat.dist (Function.update f i x id) (g id) ≤
      ∑ id ∈ U, Nat.dist (f id) (g id) + Nat.dist (f i) x := by
  by_cases hi : i ∈ U
  · rw [← add_sum_erase U _ hi, ← add_sum_erase U _ hi]
    have hrest : ∑ id ∈ U.erase i, Nat.dist (Function.update f i x id) (g id) =
        ∑ id ∈ U.erase i, Nat.dist (f id) (g id) :=
      sum_congr rfl fun id hid => by
        rw [update_of_ne (ne_of_mem_erase hid)]
    rw [hrest, update_self]
    simp only [Nat.dist]
    omega
  · refine le_of_eq_of_le (sum_congr rfl fun id hid => ?_) (le_self_add)
    have hne : id ≠ i := fun h => hi (h ▸ hid)
    rw [update_of_ne hne]

namespace Transition

/-- A change that is put off or refused. -/
def Keeps (t t' : Transition) : Prop :=
  t'.validatorSet = t.validatorSet ∧ t'.stakeChurned = t.stakeChurned

/-- A change within the budget, after which a validator has these own and delegated stakes. -/
structure Moves (l : TransitionLimits) (t t' : Transition) (id own delegated : ℕ) : Prop where
  ownStake : t'.validatorSet.ownStake = Function.update t.validatorSet.ownStake id own
  delegatedTo :
    t'.validatorSet.delegatedTo = Function.update t.validatorSet.delegatedTo id delegated
  exceeds : t.exceeds l (Nat.dist (t.validatorSet.ownStake id) own) = false
  charged : t'.stakeChurned = (t.charge (Nat.dist (t.validatorSet.ownStake id) own)).stakeChurned

section

variable (l : TransitionLimits) (t : Transition)

lemma moves_updateStep (u : PendingStakeUpdate) :
    Keeps t (t.updateStep l u) ∨
      Moves l t (t.updateStep l u) u.validatorId u.newStake
        (t.validatorSet.delegatedTo u.validatorId) := by
  unfold updateStep
  split_ifs with hmin
  · exact .inl ⟨rfl, rfl⟩
  cases hv : t.validatorSet.get u.validatorId with
  | none => exact .inl ⟨rfl, rfl⟩
  | some v =>
    have hstake : v.stake = t.validatorSet.ownStake u.validatorId := by
      simp [ValidatorSet.ownStake, hv]
    have hdelegated : t.validatorSet.delegatedTo u.validatorId = v.delegatedStake := by
      simp [ValidatorSet.delegatedTo, hv]
    simp only [hstake]
    split_ifs with hexceeds
    · exact .inl ⟨rfl, rfl⟩
    · refine .inr ⟨t.validatorSet.numberOf_modify (·.stake) (fun _ => rfl) hv, ?_,
        by simpa using hexceeds, rfl⟩
      rw [hdelegated]
      exact t.validatorSet.numberOf_modify (·.delegatedStake) (fun _ => rfl) hv

lemma moves_joinStep (pj : PendingJoin) :
    Keeps t (t.joinStep l pj) ∨ t.validatorSet.delegatedTo pj.info.id = 0 ∧
      Moves l t (t.joinStep l pj) pj.info.id pj.info.stake pj.info.delegatedStake := by
  unfold joinStep
  split_ifs with hmax hexceeds hany
  · exact .inl ⟨rfl, rfl⟩
  · exact .inl ⟨rfl, rfl⟩
  · exact .inl ⟨rfl, rfl⟩
  · have hnew : t.validatorSet.get pj.info.id = none := by
      rw [ValidatorSet.get]
      simpa using hany
    have hdist : Nat.dist (t.validatorSet.ownStake pj.info.id) pj.info.stake = pj.info.stake := by
      simp [ValidatorSet.ownStake, hnew, Nat.dist]
    refine .inr ⟨by simp [ValidatorSet.delegatedTo, hnew],
      t.validatorSet.numberOf_addValidator (·.stake) hnew,
      t.validatorSet.numberOf_addValidator (·.delegatedStake) hnew, ?_, ?_⟩
    · rw [hdist]
      simpa using hexceeds
    · rw [hdist]
      rfl

lemma moves_leaveStep (pl : PendingLeave) :
    Keeps t (t.leaveStep l pl) ∨ Moves l t (t.leaveStep l pl) pl.validatorId 0 0 := by
  simp only [leaveStep]
  split_ifs with hmax hexceeds hmin
  · exact .inl ⟨rfl, rfl⟩
  · exact .inl ⟨rfl, rfl⟩
  · exact .inl ⟨rfl, rfl⟩
  · split
    · rename_i rest hrest
      have hown := t.validatorSet.numberOf_removeValidator (·.stake) pl.validatorId
      have hdelegated := t.validatorSet.numberOf_removeValidator (·.delegatedStake) pl.validatorId
      rw [hrest] at hown hdelegated
      have hdist : Nat.dist (t.validatorSet.ownStake pl.validatorId) 0 =
          t.validatorSet.ownStake pl.validatorId := by simp [Nat.dist]
      refine .inr ⟨hown, hdelegated, ?_, ?_⟩
      · rw [hdist]
        simpa using hexceeds
      · rw [hdist]
        rfl
    · exact .inl ⟨rfl, rfl⟩

end

/-- The own stakes have moved by what was charged, which is within the budget. -/
structure Within (l : TransitionLimits) (own : ℕ → ℕ) (t : Transition) : Prop where
  sum : ∀ U : Finset ℕ, ∑ id ∈ U, Nat.dist (t.validatorSet.ownStake id) (own id) ≤ t.stakeChurned
  budget : t.stakeChurned ≤ l.stakeBudget
  small : ∀ id, t.validatorSet.ownStake id < 2 ^ 53

variable {l : TransitionLimits} {own : ℕ → ℕ} {t t' : Transition}

section

variable (h : Within l own t)

include h

lemma Within.keep (hkeeps : Keeps t t') : Within l own t' := by
  obtain ⟨hset, hchurned⟩ := hkeeps
  refine ⟨fun U => ?_, ?_, ?_⟩
  · rw [hset, hchurned]
    exact h.sum U
  · rw [hchurned]
    exact h.budget
  · rw [hset]
    exact h.small

lemma Within.move (hl : l.enforceStakeChurn = true) (hsmall : l.stakeBudget < 2 ^ 53)
    {id x delegated : ℕ} (hx : x < 2 ^ 53) (hmoves : Moves l t t' id x delegated) :
    Within l own t' := by
  obtain ⟨hset, -, hexceeds, hchurned⟩ := hmoves
  have hbudget := h.budget
  have hold := h.small id
  -- nothing wraps
  have hsum : (t.stakeChurned + Nat.dist (t.validatorSet.ownStake id) x) % 2 ^ 64 =
      t.stakeChurned + Nat.dist (t.validatorSet.ownStake id) x := by
    simp only [Nat.dist]
    omega
  rw [charge, hsum] at hchurned
  refine ⟨fun U => ?_, ?_, fun id' => ?_⟩
  · rw [hset, hchurned]
    exact (sum_dist_update_le U _ _ _ _).trans (Nat.add_le_add_right (h.sum U) _)
  · simp only [Transition.exceeds, hl, Bool.true_and, hsum, decide_eq_false_iff_not,
      not_lt] at hexceeds
    rw [hchurned]
    exact hexceeds
  · rw [hset, update_apply]
    split_ifs
    · exact hx
    · exact h.small id'

end

/-- Delegated stakes have moved from those before by at most so much for each validator. -/
def Shifted (delegated bound : ℕ → ℕ) (t : Transition) : Prop :=
  ∀ id, Nat.dist (t.validatorSet.delegatedTo id) (delegated id) ≤ bound id

section

variable {delegated bound : ℕ → ℕ} (h : Shifted delegated bound t)

include h

lemma Shifted.keep (hkeeps : Keeps t t') : Shifted delegated bound t' := by
  intro id
  rw [hkeeps.1]
  exact h id

lemma Shifted.move {id x y : ℕ} (hmoves : Moves l t t' id x y)
    (hy : Nat.dist y (delegated id) ≤ bound id) : Shifted delegated bound t' := by
  intro id'
  rw [hmoves.delegatedTo, update_apply]
  split_ifs with hid
  · rw [hid]
    exact hy
  · exact h id'

end

/-- Reporting what has to wait changes nothing else. -/
lemma foldl_defer {α : Type} (waiting : List α) (text : α → String) (t : Transition) :
    waiting.foldl (fun t a => t.defer (text a)) t =
      { t with result := { t.result with deferred := t.result.deferred ++ waiting.map text } } := by
  induction waiting generalizing t with
  | nil => simp
  | cons a waiting ih =>
    rw [foldl_cons, ih]
    simp [defer]

variable {P : Transition → Prop}

/-- A property that the ready changes of a queue keep, one by one, holds after all of them. -/
lemma updates_keeps (hkeep : ∀ {t t'}, P t → Keeps t t' → P t')
    (hstep : ∀ t', ∀ u ∈ t.manager.pendingStakeUpdates, P t' → P (t'.updateStep l u)) (h : P t) :
    P (t.updates l) := by
  simp only [Transition.updates, partition_eq_filter_filter, foldl_defer]
  exact List.foldlRecOn _ _ (hkeep h ⟨rfl, rfl⟩)
    fun t' ht u hu => hstep t' u (List.mem_of_mem_filter hu) ht

lemma joins_keeps (hkeep : ∀ {t t'}, P t → Keeps t t' → P t')
    (hstep : ∀ t', ∀ pj ∈ t.manager.pendingJoins, pj.readyAtEpoch ≤ l.epoch → P t' →
      P (t'.joinStep l pj)) (h : P t) : P (t.joins l) := by
  simp only [Transition.joins, partition_eq_filter_filter, foldl_defer]
  refine List.foldlRecOn _ _ (hkeep h ⟨rfl, rfl⟩) fun t' ht pj hpj => ?_
  obtain ⟨hmem, hready⟩ := List.mem_filter.mp hpj
  exact hstep t' pj hmem (of_decide_eq_true hready) ht

lemma leaves_keeps (hkeep : ∀ {t t'}, P t → Keeps t t' → P t')
    (hstep : ∀ t', ∀ pl ∈ t.manager.pendingLeaves, pl.unlockAtEpoch ≤ l.epoch → P t' →
      P (t'.leaveStep l pl)) (h : P t) : P (t.leaves l) := by
  simp only [Transition.leaves, partition_eq_filter_filter, foldl_defer]
  refine List.foldlRecOn _ _ (hkeep h ⟨rfl, rfl⟩) fun t' ht pl hpl => ?_
  obtain ⟨hmem, hready⟩ := List.mem_filter.mp hpl
  exact hstep t' pl hmem (of_decide_eq_true hready) ht

/-- Stake updates leave the queues of joins and leaves alone. -/
lemma queues_updates (l : TransitionLimits) (t : Transition) :
    (t.updates l).manager.pendingJoins = t.manager.pendingJoins ∧
      (t.updates l).manager.pendingLeaves = t.manager.pendingLeaves := by
  simp only [Transition.updates, partition_eq_filter_filter, foldl_defer]
  refine List.foldlRecOn (motive := fun t' : Transition => t'.manager.pendingJoins = _ ∧
    t'.manager.pendingLeaves = _) _ _ ⟨rfl, rfl⟩ fun t' ht u _ => ?_
  unfold Transition.updateStep
  split_ifs
  · exact ht
  · dsimp only
    split
    · exact ht
    · split_ifs <;> exact ht

/-- Joins leave the queue of leaves alone. -/
lemma pendingLeaves_joins (l : TransitionLimits) (t : Transition) :
    (t.joins l).manager.pendingLeaves = t.manager.pendingLeaves := by
  simp only [Transition.joins, partition_eq_filter_filter, foldl_defer]
  refine List.foldlRecOn (motive := fun t' : Transition => t'.manager.pendingLeaves = _) _ _ rfl
    fun t' ht pj _ => ?_
  unfold Transition.joinStep
  split_ifs <;> exact ht

end Transition

namespace EpochTransitionManager

open Transition

variable (m : EpochTransitionManager) (vs : ValidatorSet) (epoch : ℕ) {vs}

/-- What every change keeps that is queued and ready, a transition keeps. -/
lemma applyEpochTransition_keeps {enforceStakeChurn : Bool} {P : Transition → Prop}
    (hkeep : ∀ {t t'}, P t → Keeps t t' → P t')
    (hupdate : ∀ t, ∀ u ∈ m.pendingStakeUpdates, P t →
      P (t.updateStep (.of vs epoch enforceStakeChurn) u))
    (hjoin : ∀ t, ∀ pj ∈ m.pendingJoins, pj.readyAtEpoch ≤ epoch → P t →
      P (t.joinStep (.of vs epoch enforceStakeChurn) pj))
    (hleave : ∀ t, ∀ pl ∈ m.pendingLeaves, pl.unlockAtEpoch ≤ epoch → P t →
      P (t.leaveStep (.of vs epoch enforceStakeChurn) pl))
    (hstart : P ⟨{ m with currentEpoch := epoch }, vs, {}, 0, 0⟩) :
    ∃ t, P t ∧ (m.applyEpochTransition vs epoch enforceStakeChurn).2.1 = t.validatorSet := by
  refine ⟨_, leaves_keeps hkeep ?_ (joins_keeps hkeep ?_ (updates_keeps hkeep hupdate hstart)), rfl⟩
  · rw [pendingLeaves_joins, (queues_updates _ _).2]
    exact hleave
  · rw [(queues_updates _ _).1]
    exact hjoin

/-- Own stakes move within the budget. -/
lemma ownStake_applyEpochTransition (hvalidators : ∀ v ∈ vs.validators, v.stake < 2 ^ 53)
    (hsum : (vs.validators.map (·.stake)).sum < 2 ^ 53)
    (hupdates : ∀ u ∈ m.pendingStakeUpdates, u.newStake < 2 ^ 53)
    (hjoins : ∀ pj ∈ m.pendingJoins, pj.info.stake < 2 ^ 53) (U : Finset ℕ) :
    16 * ∑ id ∈ U, Nat.dist ((m.applyEpochTransition vs epoch true).2.1.ownStake id)
      (vs.ownStake id) ≤ (vs.validators.map (·.stake)).sum := by
  have hbudget : (TransitionLimits.of vs epoch true).stakeBudget =
      (vs.validators.map (·.stake)).sum / 16 := by
    have hmod : (vs.validators.map (·.stake)).sum % 2 ^ 64 = (vs.validators.map (·.stake)).sum :=
      Nat.mod_eq_of_lt (hsum.trans (by norm_num))
    simp only [TransitionLimits.of, hmod, asF64, if_pos hsum]
  have hsmall : (TransitionLimits.of vs epoch true).stakeBudget < 2 ^ 53 := by
    rw [hbudget]
    exact (Nat.div_le_self _ _).trans_lt hsum
  have hstart : Within (.of vs epoch true) vs.ownStake
      ⟨{ m with currentEpoch := epoch }, vs, {}, 0, 0⟩ := by
    refine ⟨fun U => ?_, Nat.zero_le _, vs.ownStake_lt (by norm_num) hvalidators⟩
    simp [Nat.dist_self]
  obtain ⟨t, hend, hset⟩ := m.applyEpochTransition_keeps epoch (P := Within _ vs.ownStake)
    Within.keep
    (fun t u hu h => (moves_updateStep _ t u).elim h.keep (h.move rfl hsmall (hupdates u hu)))
    (fun t pj hpj _ h => (moves_joinStep _ t pj).elim h.keep
      fun hmoves => h.move rfl hsmall (hjoins pj hpj) hmoves.2)
    (fun t pl _ _ h => (moves_leaveStep _ t pl).elim h.keep (h.move rfl hsmall (by norm_num)))
    hstart
  have hle := (hend.sum U).trans hend.budget
  rw [hbudget] at hle
  rw [hset]
  exact (Nat.mul_le_mul_left 16 hle).trans (Nat.mul_div_le _ _)

/-! ### Delegated stakes along a transition -/

def readyJoins : List PendingJoin := m.pendingJoins.filter (·.readyAtEpoch ≤ epoch)

def readyLeaves : Finset ℕ :=
  ((m.pendingLeaves.filter (·.unlockAtEpoch ≤ epoch)).map (·.validatorId)).toFinset

/-- The delegated stake that ready joins would bring and ready leaves would take. -/
def delegatedChurn (vs : ValidatorSet) : ℕ :=
  ((m.readyJoins epoch).map (·.info.delegatedStake)).sum +
    ∑ id ∈ m.readyLeaves epoch, vs.delegatedTo id

/-- The delegated stake that joins bring to one validator. -/
def broughtTo (joins : List PendingJoin) (id : ℕ) : ℕ :=
  (joins.map fun pj => if pj.info.id = id then pj.info.delegatedStake else 0).sum

lemma sum_broughtTo_le (joins : List PendingJoin) (U : Finset ℕ) :
    ∑ id ∈ U, broughtTo joins id ≤ (joins.map (·.info.delegatedStake)).sum := by
  induction joins with
  | nil => simp [broughtTo]
  | cons pj joins ih =>
    have hone : ∑ id ∈ U, (if pj.info.id = id then pj.info.delegatedStake else 0) ≤
        pj.info.delegatedStake := by
      rw [sum_ite_eq]
      split_ifs <;> omega
    simp only [broughtTo, List.map_cons, List.sum_cons, sum_add_distrib] at ih ⊢
    omega

lemma le_broughtTo {joins : List PendingJoin} {pj : PendingJoin} (h : pj ∈ joins) :
    pj.info.delegatedStake ≤ broughtTo joins pj.info.id :=
  List.single_le_sum (by simp) _ (List.mem_map.mpr ⟨pj, h, by simp⟩)

/-- The delegated stake that leaves may take from one validator. -/
def takenFrom (vs : ValidatorSet) (leaves : Finset ℕ) (id : ℕ) : ℕ :=
  if id ∈ leaves then vs.delegatedTo id else 0

lemma sum_takenFrom_le (vs : ValidatorSet) (leaves U : Finset ℕ) :
    ∑ id ∈ U, takenFrom vs leaves id ≤ ∑ id ∈ leaves, vs.delegatedTo id := by
  simp only [takenFrom, sum_ite_mem]
  exact sum_le_sum_of_subset inter_subset_right

lemma shifted_applyEpochTransition (vs : ValidatorSet) (enforceStakeChurn : Bool) :
    ∃ t, Shifted vs.delegatedTo (fun id => broughtTo (m.readyJoins epoch) id +
        takenFrom vs (m.readyLeaves epoch) id) t ∧
      (m.applyEpochTransition vs epoch enforceStakeChurn).2.1 = t.validatorSet := by
  refine m.applyEpochTransition_keeps epoch Shifted.keep ?_ ?_ ?_ ?_
  · intro t u _ h
    exact (moves_updateStep _ t u).elim h.keep fun hmoves => h.move hmoves (h u.validatorId)
  · intro t pj hpj hready h
    refine (moves_joinStep _ t pj).elim h.keep fun ⟨hzero, hmoves⟩ => h.move hmoves ?_
    have hjoined : pj.info.delegatedStake ≤ broughtTo (m.readyJoins epoch) pj.info.id :=
      le_broughtTo (List.mem_filter.mpr ⟨hpj, decide_eq_true hready⟩)
    -- what the validator had before the transition is within the bound already
    have hbefore := h pj.info.id
    rw [hzero] at hbefore
    simp only [Nat.dist] at hbefore ⊢
    omega
  · intro t pl hpl hready h
    refine (moves_leaveStep _ t pl).elim h.keep fun hmoves => h.move hmoves ?_
    have hmem : pl.validatorId ∈ m.readyLeaves epoch := by
      simp only [readyLeaves, List.mem_toFinset, List.mem_map, List.mem_filter]
      exact ⟨pl, ⟨hpl, decide_eq_true hready⟩, rfl⟩
    simp only [takenFrom, if_pos hmem, Nat.dist]
    omega
  · intro id
    simp [Nat.dist_self]

/-- Delegated stakes move only with the validators that join or leave. -/
lemma delegatedTo_applyEpochTransition (vs : ValidatorSet) (enforceStakeChurn : Bool)
    (U : Finset ℕ) :
    ∑ id ∈ U, Nat.dist ((m.applyEpochTransition vs epoch enforceStakeChurn).2.1.delegatedTo id)
      (vs.delegatedTo id) ≤ m.delegatedChurn epoch vs := by
  obtain ⟨t, hend, hset⟩ := m.shifted_applyEpochTransition epoch vs enforceStakeChurn
  have hsum := Finset.sum_le_sum fun id (_ : id ∈ U) => hend id
  rw [sum_add_distrib] at hsum
  rw [hset, delegatedChurn]
  exact hsum.trans (Nat.add_le_add (sum_broughtTo_le _ U) (sum_takenFrom_le vs _ U))

end EpochTransitionManager

/-- The weights of quorums move by a sixteenth at most if the ready joins and leaves come with at
most a sixteenth of the delegated stakes. -/
theorem applyEpochTransition_churn (m : EpochTransitionManager) (vs : ValidatorSet) (epoch : ℕ)
    (hactive : ∀ v ∈ vs.validators, v.jailed = false)
    (hsum : (vs.validators.map fun v => v.stake + v.delegatedStake).sum < 2 ^ 53)
    (hupdates : ∀ u ∈ m.pendingStakeUpdates, u.newStake < 2 ^ 53)
    (hjoins : ∀ pj ∈ m.pendingJoins, pj.info.stake < 2 ^ 53)
    (hdelegated : 16 * m.delegatedChurn epoch vs ≤ (vs.validators.map (·.delegatedStake)).sum)
    (U : Finset ℕ) :
    16 * ∑ id ∈ U, Nat.dist ((m.applyEpochTransition vs epoch true).2.1.stakeOf id)
      (vs.stakeOf id) ≤ vs.totalStake := by
  have hsplit : (vs.validators.map fun v => v.stake + v.delegatedStake).sum =
      (vs.validators.map (·.stake)).sum + (vs.validators.map (·.delegatedStake)).sum :=
    sum_map_add
  have hvalidators : ∀ v ∈ vs.validators, v.stake < 2 ^ 53 := by
    intro v hv
    have hle := List.single_le_sum (by simp) v.stake
      (List.mem_map_of_mem hv : v.stake ∈ vs.validators.map (·.stake))
    omega
  -- nothing is clamped in the total
  have htotal : vs.totalStake =
      (vs.validators.map (·.stake)).sum + (vs.validators.map (·.delegatedStake)).sum := by
    have heffective : vs.validators.map (·.effectiveStake) =
        vs.validators.map fun v => v.stake + v.delegatedStake := by
      refine map_congr_left fun v hv => ?_
      have hle := List.single_le_sum (by simp) (v.stake + v.delegatedStake)
        (List.mem_map_of_mem (f := fun v => v.stake + v.delegatedStake) hv)
      simp only [ValidatorInfo.effectiveStake, satAdd, u64Max]
      omega
    rw [vs.totalStake_eq_genesisTotal hactive, ValidatorSet.genesisTotal, heffective,
      satSum_eq_sum, hsplit]
    rw [u64Max]
    omega
  have hown := m.ownStake_applyEpochTransition epoch hvalidators (by omega) hupdates hjoins U
  have hshifted := m.delegatedTo_applyEpochTransition epoch vs true U
  have hstakes : ∑ id ∈ U, Nat.dist ((m.applyEpochTransition vs epoch true).2.1.stakeOf id)
      (vs.stakeOf id) ≤
      ∑ id ∈ U, Nat.dist ((m.applyEpochTransition vs epoch true).2.1.ownStake id)
        (vs.ownStake id) +
      ∑ id ∈ U, Nat.dist ((m.applyEpochTransition vs epoch true).2.1.delegatedTo id)
        (vs.delegatedTo id) := by
    rw [← sum_add_distrib]
    exact Finset.sum_le_sum fun id _ => vs.dist_stakeOf_le _ id
  omega

/-- Four validators; the last has few stakes of its own. -/
def delegatedSet (delegated : ℕ) : ValidatorSet where
  validators :=
    [ { id := 1, stake := 1600, delegatedStake := 1600 },
      { id := 2, stake := 1600, delegatedStake := 1600 },
      { id := 3, stake := 1600, delegatedStake := 1600 },
      { id := 4, stake := 100, delegatedStake := delegated } ]

/-- Validator 4 leaves, 5 joins and 1 adds to its stake. -/
def busyQueue : EpochTransitionManager where
  pendingJoins := [⟨{ id := 5, stake := 100, delegatedStake := 100 }, 1⟩]
  pendingLeaves := [⟨4, 1⟩]
  pendingStakeUpdates := [⟨1, 1650, 1⟩]

theorem applyEpochTransition_churn_busyQueue :
    16 * ∑ id ∈ {1, 2, 3, 4, 5}, Nat.dist
        ((busyQueue.applyEpochTransition (delegatedSet 200) 1 true).2.1.stakeOf id)
        ((delegatedSet 200).stakeOf id) ≤ (delegatedSet 200).totalStake :=
  applyEpochTransition_churn busyQueue (delegatedSet 200) 1 (by decide) (by decide) (by decide)
    (by decide) (by decide) {1, 2, 3, 4, 5}

/-- All three changes are applied. -/
example : (busyQueue.applyEpochTransition (delegatedSet 200) 1 true).2.2.applied =
    ["Validator 1 stake updated: 1600 → 1650", "Validator 5 joined", "Validator 4 left"] := by
  decide +kernel

/-- The leave of a validator with 100 of its own takes 100000 delegated with it, out of 109700. -/
theorem applyEpochTransition_delegated_leave :
    ¬ 16 * ∑ id ∈ {1, 2, 3, 4, 5}, Nat.dist
        ((busyQueue.applyEpochTransition (delegatedSet 100000) 1 true).2.1.stakeOf id)
        ((delegatedSet 100000).stakeOf id) ≤ (delegatedSet 100000).totalStake := by
  decide +kernel

end EvaporChain
