import EvaporChain.Consensus.EpochTransition
import EvaporChain.Execution.ParallelExecutor

/-!
# Validators of applied blocks

A block that is applied is executed first; then its staking transactions are queued and, at an epoch
boundary, what the queue has ready changes the validator set. The queue is filled from the
transactions of the block, not from their outcomes.
-/

namespace EvaporChain

open Core List

/-! ### Rotation of keys -/

namespace ValidatorSet

/-- Install a rotated key and keep the old one. An empty key is dropped on the way. -/
def rotateValidatorKey (vs : ValidatorSet) (rot : ValidatorKeyRotation) : ValidatorSet :=
  vs.modify rot.validatorId fun v =>
    match v.blsPublicKey with
    | none => v
    | some [] => { v with blsPublicKey := none }
    | some key =>
      { v with
        blsPublicKeyPrev := some key
        blsPrevKeyExpiryEpoch := some rot.prevKeyExpiryEpoch
        blsPublicKey := some rot.newBlsPublicKey
        popVerified := true }

variable (verifyRotationContinuity : Bytes → Bytes → Bytes → Bool)

/-- Apply one rotation if its continuity proof verifies under the current key. -/
def applyRotation (vs : ValidatorSet) (rot : ValidatorKeyRotation) : ValidatorSet :=
  match (vs.get rot.validatorId).bind (·.blsPublicKey) with
  | none => vs
  | some oldPk =>
    if verifyRotationContinuity oldPk rot.newBlsPublicKey rot.blsPopOld then
      vs.rotateValidatorKey rot
    else vs

def applyValidatorKeyRotations
    (vs : ValidatorSet) (rotations : List ValidatorKeyRotation) : ValidatorSet :=
  rotations.foldl (applyRotation verifyRotationContinuity) vs

def dropExpired (currentEpoch : ℕ) (v : ValidatorInfo) : ValidatorInfo :=
  match v.blsPrevKeyExpiryEpoch with
  | some expiry =>
    if expiry < currentEpoch then { v with blsPublicKeyPrev := none, blsPrevKeyExpiryEpoch := none }
    else v
  | none => v

/-- Drop previous keys whose time is over. -/
def purgeExpiredPrevKeys (vs : ValidatorSet) (currentEpoch : ℕ) : ValidatorSet :=
  ⟨vs.validators.map (dropExpired currentEpoch)⟩

end ValidatorSet

/-! ### Application of a block -/

def epochLength : ℕ := 100

namespace EpochTransitionManager

def isEpochBoundary (height : ℕ) : Bool := decide (0 < height) && height % epochLength == 0

def queueTransaction (epoch : ℕ) (m : EpochTransitionManager) (tx : Transaction) :
    EpochTransitionManager :=
  match tx.body with
  | .validatorStake stake =>
    m.queueChange (.join { id := stake.validatorId, stake := stake.stakeAmount }) epoch
  | .validatorExit exit => m.queueChange (.leave exit.validatorId) epoch
  | _ => m

end EpochTransitionManager

/-- The validator set of a node, with its queue. -/
structure ValidatorRegistry where
  validatorSet : ValidatorSet
  epochManager : EpochTransitionManager := {}

/-- A call of `apply_block`. The database is an argument of the call, so a call may find another
state than the last one left. -/
structure BlockCall (C S : Type) where
  st : ChainState C S
  input : Simple.BlockInput
  /-- Verdict on the state root of the block's header. -/
  passesWeakSubjectivity : Bool := true
  /-- Verdict on the block's claim about the state root after execution. -/
  passesPostStateRoot : Bool := true
  /-- Epoch of the node. -/
  epoch : ℕ := 0
  enforceStakeChurn : Bool := false

section

variable {C S : Type} (env : ChainEnv C S) (verifyRotationContinuity : Bytes → Bytes → Bytes → Bool)

def BlockCall.execution (call : BlockCall C S) : Option BlockExecutionResult :=
  if call.passesWeakSubjectivity then
    match Parallel.executeBlock env call.st call.input with
    | .ok (result, _) => if call.passesPostStateRoot then some result else none
    | .error _ => none
  else none

def BlockCall.succeeded (call : BlockCall C S) : List Transaction :=
  match call.execution env with
  | some result =>
    ((call.input.block.transactions.zip result.txOutcomes).filter (·.2.success)).map Prod.fst
  | none => []

namespace ValidatorRegistry

variable (r : ValidatorRegistry)

/-- Scan a committed block for staking transactions. -/
def queueBlock (block : ExecBlock) : ValidatorRegistry :=
  { r with
    epochManager := block.transactions.foldl
      (EpochTransitionManager.queueTransaction block.epoch) r.epochManager }

def rotateKeys (rotations : List ValidatorKeyRotation) (epoch : ℕ) : ValidatorRegistry :=
  { r with
    validatorSet := (r.validatorSet.applyValidatorKeyRotations verifyRotationContinuity
      rotations).purgeExpiredPrevKeys epoch }

/-- Change the validator set at an epoch boundary. -/
def transition (block : ExecBlock) (enforceStakeChurn : Bool) : ValidatorRegistry :=
  if EpochTransitionManager.isEpochBoundary block.number then
    let (manager, validatorSet, _) :=
      r.epochManager.applyEpochTransition r.validatorSet block.epoch enforceStakeChurn
    ⟨validatorSet, manager⟩
  else r

def beforeTransition (call : BlockCall C S) (result : BlockExecutionResult) : ValidatorRegistry :=
  (r.rotateKeys verifyRotationContinuity result.validatorKeyRotations call.epoch).queueBlock
    call.input.block

/-- Apply a block; a block that is refused or fails as a whole changes nothing here. -/
def applyBlock (call : BlockCall C S) : ValidatorRegistry :=
  match call.execution env with
  | some result =>
    (r.beforeTransition verifyRotationContinuity call result).transition call.input.block
      call.enforceStakeChurn
  | none => r

end ValidatorRegistry

end

/-! ### What a transition adds and removes -/

/-- The first half of a transition: stake updates and joins. -/
def EpochTransitionManager.joined (m : EpochTransitionManager) (vs : ValidatorSet) (epoch : ℕ)
    (enforceStakeChurn : Bool) : Transition :=
  let l := TransitionLimits.of vs epoch enforceStakeChurn
  ((⟨{ m with currentEpoch := epoch }, vs, {}, 0, 0⟩ : Transition).updates l).joins l

/-- Queued joins, by id and stake, and queued leaves have a reason. -/
structure EpochTransitionManager.Sourced (joins : ℕ → ℕ → Prop) (leaves : ℕ → Prop)
    (m : EpochTransitionManager) : Prop where
  joins : ∀ pj ∈ m.pendingJoins, joins pj.info.id pj.info.stake
  leaves : ∀ pl ∈ m.pendingLeaves, leaves pl.validatorId

namespace Transition

variable {l : TransitionLimits} {t t' : Transition} {vs : ValidatorSet} {joins : ℕ → ℕ → Prop}
  {leaves : ℕ → Prop}

/-- The queue is sourced, and validators that were not in a set have a reason to be there. -/
structure Joining (joins : ℕ → ℕ → Prop) (leaves : ℕ → Prop) (vs : ValidatorSet)
    (t : Transition) : Prop where
  sourced : t.manager.Sourced joins leaves
  added : ∀ id v, t.validatorSet.get id = some v → vs.get id = none → joins id v.stake

/-- The queue is sourced, and validators that are gone from a set have a reason to be gone. -/
structure Leaving (joins : ℕ → ℕ → Prop) (leaves : ℕ → Prop) (vs : ValidatorSet)
    (t : Transition) : Prop where
  sourced : t.manager.Sourced joins leaves
  removed : ∀ id, (vs.get id).isSome → t.validatorSet.get id = none → leaves id

lemma Joining.keep (h : Joining joins leaves vs t) (hset : t'.validatorSet = t.validatorSet)
    (hmanager : t'.manager.Sourced joins leaves) : Joining joins leaves vs t' := by
  refine ⟨hmanager, ?_⟩
  rw [hset]
  exact h.added

lemma Leaving.keep (h : Leaving joins leaves vs t) (hset : t'.validatorSet = t.validatorSet)
    (hmanager : t'.manager.Sourced joins leaves) : Leaving joins leaves vs t' := by
  refine ⟨hmanager, ?_⟩
  rw [hset]
  exact h.removed

lemma Joining.updateStep {u : PendingStakeUpdate} (h : Joining joins leaves vs t)
    (hvs : ∀ id, (t.validatorSet.get id).isSome → (vs.get id).isSome) :
    Joining joins leaves vs (t.updateStep l u) ∧
      ∀ id, ((t.updateStep l u).validatorSet.get id).isSome → (vs.get id).isSome := by
  unfold Transition.updateStep
  split_ifs
  · exact ⟨h.keep rfl h.sourced, hvs⟩
  cases hv : t.validatorSet.get u.validatorId with
  | none => exact ⟨h.keep rfl h.sourced, hvs⟩
  | some v =>
    dsimp only
    split_ifs
    · exact ⟨h.keep rfl ⟨h.sourced.joins, h.sourced.leaves⟩, hvs⟩
    · have hsome : ∀ id, ((t.validatorSet.modify u.validatorId fun v =>
          { v with stake := u.newStake }).get id).isSome → (vs.get id).isSome := by
        intro id hid
        rw [ValidatorSet.get_modify t.validatorSet u.validatorId id
          (f := fun v => { v with stake := u.newStake }) fun _ => rfl] at hid
        refine hvs id ?_
        split_ifs at hid with heq
        · rw [heq, hv]
          rfl
        · exact hid
      refine ⟨⟨h.sourced, fun id w hw hnone => ?_⟩, hsome⟩
      have hpresent := hsome id (Option.isSome_iff_exists.mpr ⟨w, hw⟩)
      rw [hnone] at hpresent
      cases hpresent

lemma Joining.joinStep {pj : PendingJoin} (h : Joining joins leaves vs t)
    (hpj : joins pj.info.id pj.info.stake) : Joining joins leaves vs (t.joinStep l pj) := by
  have hrequeue : (t.requeueJoin l pj).manager.Sourced joins leaves := by
    refine ⟨fun qj hqj => ?_, h.sourced.leaves⟩
    rcases List.mem_append.mp hqj with hqj | hqj
    · exact h.sourced.joins qj hqj
    · rw [List.mem_singleton.mp hqj]
      exact hpj
  unfold Transition.joinStep
  split_ifs with hmax hexceeds hany
  · exact h.keep rfl hrequeue
  · exact h.keep rfl hrequeue
  · exact h.keep rfl h.sourced
  · have hnew : t.validatorSet.get pj.info.id = none := by
      rw [ValidatorSet.get]
      simpa using hany
    refine ⟨h.sourced, fun id v hv hnone => ?_⟩
    simp only [apply, ValidatorSet.get_addValidator t.validatorSet pj.info id hnew] at hv
    split_ifs at hv with hid
    · cases hv
      exact hid ▸ hpj
    · exact h.added id v hv hnone

lemma Leaving.leaveStep {pl : PendingLeave} (h : Leaving joins leaves vs t)
    (hpl : leaves pl.validatorId) : Leaving joins leaves vs (t.leaveStep l pl) := by
  have hrequeue : (t.requeueLeave l pl).manager.Sourced joins leaves := by
    refine ⟨h.sourced.joins, fun ql hql => ?_⟩
    rcases List.mem_append.mp hql with hql | hql
    · exact h.sourced.leaves ql hql
    · rw [List.mem_singleton.mp hql]
      exact hpl
  simp only [Transition.leaveStep]
  split_ifs with hmax hexceeds hmin
  · exact h.keep rfl hrequeue
  · exact h.keep rfl hrequeue
  · exact h.keep rfl h.sourced
  · split
    · rename_i rest hrest
      refine ⟨h.sourced, fun id hid hnone => ?_⟩
      have hget := ValidatorSet.get_removeValidator t.validatorSet pl.validatorId id
      rw [hrest] at hget
      simp only [apply, hget] at hnone
      split_ifs at hnone with heq
      · exact heq ▸ hpl
      · exact h.removed id hid hnone
    · exact h.keep rfl h.sourced

end Transition

namespace EpochTransitionManager

variable {m : EpochTransitionManager} {joins : ℕ → ℕ → Prop} {leaves : ℕ → Prop}

lemma Sourced.joining_joined (h : m.Sourced joins leaves) (vs : ValidatorSet) (epoch : ℕ)
    (enforceStakeChurn : Bool) :
    Transition.Joining joins leaves vs (m.joined vs epoch enforceStakeChurn) := by
  set l := TransitionLimits.of vs epoch enforceStakeChurn
  have hupdates : Transition.Joining joins leaves vs
      ((⟨{ m with currentEpoch := epoch }, vs, {}, 0, 0⟩ : Transition).updates l) := by
    simp only [Transition.updates, Transition.foldl_defer]
    refine (List.foldlRecOn (motive := fun t => Transition.Joining joins leaves vs t ∧
      ∀ id, (t.validatorSet.get id).isSome → (vs.get id).isSome) _ _
      ⟨⟨⟨h.joins, h.leaves⟩, ?_⟩, fun id hid => hid⟩ fun t ht u _ => ht.1.updateStep ht.2).1
    intro id v hv hnone
    rw [hnone] at hv
    cases hv
  rw [joined, Transition.joins]
  simp only [partition_eq_filter_filter, Transition.foldl_defer]
  refine List.foldlRecOn _ _ (hupdates.keep rfl ?_) fun t ht pj hpj => ht.joinStep ?_
  · exact ⟨fun pj hpj => hupdates.sourced.joins pj (mem_of_mem_filter hpj),
      hupdates.sourced.leaves⟩
  · exact hupdates.sourced.joins pj (mem_of_mem_filter hpj)

lemma Sourced.leaving_leaves {t : Transition} (h : t.manager.Sourced joins leaves)
    (l : TransitionLimits) : Transition.Leaving joins leaves t.validatorSet (t.leaves l) := by
  rw [Transition.leaves]
  simp only [partition_eq_filter_filter, Transition.foldl_defer]
  refine List.foldlRecOn _ _ ⟨?_, ?_⟩ fun t' ht pl hpl => ht.leaveStep ?_
  · exact ⟨h.joins, fun pl hpl => h.leaves pl (mem_of_mem_filter hpl)⟩
  · intro id hid hnone
    rw [hnone] at hid
    cases hid
  · exact h.leaves pl (mem_of_mem_filter hpl)

lemma Sourced.imp {joins' : ℕ → ℕ → Prop} {leaves' : ℕ → Prop} (h : m.Sourced joins leaves)
    (hjoins : ∀ id stake, joins id stake → joins' id stake)
    (hleaves : ∀ id, leaves id → leaves' id) :
    m.Sourced joins' leaves' :=
  ⟨fun pj hpj => hjoins _ _ (h.joins pj hpj), fun pl hpl => hleaves _ (h.leaves pl hpl)⟩

/-- A transaction that has a reason may be queued. -/
lemma Sourced.queueTransaction {tx : Transaction} (h : m.Sourced joins leaves) (epoch : ℕ)
    (hstake : ∀ stake, tx.body = .validatorStake stake → joins stake.validatorId stake.stakeAmount)
    (hexit : ∀ exit, tx.body = .validatorExit exit → leaves exit.validatorId) :
    (m.queueTransaction epoch tx).Sourced joins leaves := by
  rw [EpochTransitionManager.queueTransaction]
  split
  · rename_i stake hbody
    refine ⟨fun pj hpj => ?_, h.leaves⟩
    rcases List.mem_append.mp hpj with hpj | hpj
    · exact h.joins pj hpj
    · rw [List.mem_singleton.mp hpj]
      exact hstake stake hbody
  · rename_i exit hbody
    refine ⟨h.joins, fun pl hpl => ?_⟩
    rcases List.mem_append.mp hpl with hpl | hpl
    · exact h.leaves pl hpl
    · rw [List.mem_singleton.mp hpl]
      exact hexit exit hbody
  · exact h

end EpochTransitionManager

/-! ### Runs -/

section

variable {C S : Type} (env : ChainEnv C S) (verifyRotationContinuity : Bytes → Bytes → Bytes → Bool)
  (calls : List (BlockCall C S))

/-- A stake transaction for a validator succeeded in one of the blocks. -/
def StakedIn (id stake : ℕ) : Prop :=
  ∃ call ∈ calls, ∃ tx ∈ call.succeeded env, ∃ body,
    tx.body = .validatorStake body ∧ body.validatorId = id ∧ body.stakeAmount = stake

/-- An exit transaction of a validator succeeded in one of the blocks. -/
def ExitedIn (id : ℕ) : Prop :=
  ∃ call ∈ calls, ∃ tx ∈ call.succeeded env, ∃ body,
    tx.body = .validatorExit body ∧ body.validatorId = id

/-- Every staking transaction of a block that is applied succeeded. -/
def BlockCall.StakingSucceeds (call : BlockCall C S) : Prop :=
  (call.execution env).isSome → ∀ tx ∈ call.input.block.transactions,
    (∃ body, tx.body = .validatorStake body) ∨ (∃ body, tx.body = .validatorExit body) →
      tx ∈ call.succeeded env

/-- Who joins and who leaves in the transition after the last of some blocks has succeeded with it
in one of them. Joins come first, so a validator may join and leave in one transition. -/
structure ValidatorRegistry.Backed (calls : List (BlockCall C S)) (r : ValidatorRegistry)
    (epoch : ℕ) (enforceStakeChurn : Bool) : Prop where
  added : ∀ id v,
    (r.epochManager.joined r.validatorSet epoch enforceStakeChurn).validatorSet.get id = some v →
    r.validatorSet.get id = none → StakedIn env calls id v.stake
  removed : ∀ id,
    ((r.epochManager.joined r.validatorSet epoch enforceStakeChurn).validatorSet.get id).isSome →
    (r.epochManager.applyEpochTransition r.validatorSet epoch enforceStakeChurn).2.1.get id = none →
      ExitedIn env calls id

variable {env verifyRotationContinuity} {calls : List (BlockCall C S)} {call : BlockCall C S}

lemma StakedIn.append {id stake : ℕ} (h : StakedIn env calls id stake) :
    StakedIn env (calls ++ [call]) id stake := by
  obtain ⟨c, hc, hsucceeded⟩ := h
  exact ⟨c, mem_append_left _ hc, hsucceeded⟩

lemma ExitedIn.append {id : ℕ} (h : ExitedIn env calls id) : ExitedIn env (calls ++ [call]) id := by
  obtain ⟨c, hc, hsucceeded⟩ := h
  exact ⟨c, mem_append_left _ hc, hsucceeded⟩

namespace ValidatorRegistry

variable {r : ValidatorRegistry} {result : BlockExecutionResult}

lemma sourced_beforeTransition
    (h : r.epochManager.Sourced (StakedIn env calls) (ExitedIn env calls))
    (hstaking : call.StakingSucceeds env) (hresult : call.execution env = some result) :
    (r.beforeTransition verifyRotationContinuity call result).epochManager.Sourced
      (StakedIn env (calls ++ [call])) (ExitedIn env (calls ++ [call])) := by
  have hmem : call ∈ calls ++ [call] := mem_append_right _ (.head _)
  have hsucceeds := hstaking (by rw [hresult]; rfl)
  have hqueue : r.epochManager.Sourced (StakedIn env (calls ++ [call]))
      (ExitedIn env (calls ++ [call])) :=
    h.imp (fun _ _ => StakedIn.append) (fun _ => ExitedIn.append)
  refine List.foldlRecOn _ _ hqueue fun m hm tx htx => hm.queueTransaction _ ?_ ?_
  · intro stake hbody
    exact ⟨call, hmem, tx, hsucceeds tx htx (.inl ⟨stake, hbody⟩), stake, hbody, rfl, rfl⟩
  · intro exit hbody
    exact ⟨call, hmem, tx, hsucceeds tx htx (.inr ⟨exit, hbody⟩), exit, hbody, rfl⟩

lemma sourced_applyBlock (h : r.epochManager.Sourced (StakedIn env calls) (ExitedIn env calls))
    (hstaking : call.StakingSucceeds env) :
    (r.applyBlock env verifyRotationContinuity call).epochManager.Sourced
      (StakedIn env (calls ++ [call])) (ExitedIn env (calls ++ [call])) := by
  rw [applyBlock]
  cases hresult : call.execution env with
  | none => exact h.imp (fun _ _ => StakedIn.append) (fun _ => ExitedIn.append)
  | some result =>
    dsimp only
    rw [transition]
    have hbefore : (r.beforeTransition verifyRotationContinuity call result).epochManager.Sourced
        _ _ := sourced_beforeTransition h hstaking hresult
    split_ifs
    · exact (hbefore.joining_joined ..).sourced.leaving_leaves _ |>.sourced
    · exact hbefore

lemma sourced_run (vs : ValidatorSet) (calls : List (BlockCall C S))
    (hstaking : ∀ call ∈ calls, call.StakingSucceeds env) :
    (run (applyBlock env verifyRotationContinuity) ⟨vs, {}⟩ calls).epochManager.Sourced
      (StakedIn env calls) (ExitedIn env calls) := by
  have hrun := run_induction (applyBlock env verifyRotationContinuity)
    (P := fun r h => r.epochManager.Sourced (StakedIn env (h.map Prod.snd))
      (ExitedIn env (h.map Prod.snd)))
    (G := fun _ call => call.StakingSucceeds env) (s := ⟨vs, {}⟩) ⟨by simp, by simp⟩
    (fun r h call hr hcall => by
      rw [map_append]
      exact sourced_applyBlock hr hcall)
    calls (fun x hx => hstaking x.2 (snd_mem_of_mem_trace _ hx))
  rwa [map_snd_trace] at hrun

variable (env verifyRotationContinuity)

/-- If every staking transaction of the blocks that are applied succeeds, then every validator that
a transition adds has staked what it joins with, and every validator it removes has exited. -/
theorem backed_run (vs : ValidatorSet) (calls : List (BlockCall C S)) (call : BlockCall C S)
    (result : BlockExecutionResult) (hstaking : ∀ c ∈ calls ++ [call], c.StakingSucceeds env)
    (hresult : call.execution env = some result) :
    ((run (applyBlock env verifyRotationContinuity) ⟨vs, {}⟩ calls).beforeTransition
      verifyRotationContinuity call result).Backed env (calls ++ [call]) call.input.block.epoch
      call.enforceStakeChurn := by
  set before := (run (applyBlock env verifyRotationContinuity) ⟨vs, {}⟩ calls).beforeTransition
    verifyRotationContinuity call result
  have hsourced : before.epochManager.Sourced (StakedIn env (calls ++ [call]))
      (ExitedIn env (calls ++ [call])) := by
    refine sourced_beforeTransition (sourced_run vs calls fun c hc => ?_) (hstaking call ?_) hresult
    · exact hstaking c (mem_append_left _ hc)
    · exact mem_append_right _ (.head _)
  have hjoining := hsourced.joining_joined before.validatorSet call.input.block.epoch
    call.enforceStakeChurn
  exact ⟨hjoining.added, (hjoining.sourced.leaving_leaves _).removed⟩

end ValidatorRegistry

end

/-! ### A stake that nobody paid -/

def BlockCall.next (call : BlockCall Unit Unit) (input : Simple.BlockInput) :
    BlockCall Unit Unit where
  st := ((Parallel.executeBlock simpleChain call.st call.input).toOption.map Prod.snd).getD call.st
  input := input

variable (balance : ℕ)

/-- Validator 9 stakes 5000 in a block of epoch 1. -/
def stakingBlock : BlockCall Unit Unit where
  st := freshState (Ledger.empty.fund (addressOf 1) balance)
  input := freeBlock 100 1 [.validatorStake
    { validatorAddress := addressOf 1, stakeAmount := 5000, validatorId := 9, nonce := 0 }]

def boundaryBlock : BlockCall Unit Unit :=
  (stakingBlock balance).next (freeBlock 200 3 [])

def beforeBoundary : ValidatorRegistry :=
  (run (ValidatorRegistry.applyBlock simpleChain fun _ _ _ => false) ⟨delegatedSet 0, {}⟩
    [stakingBlock balance]).beforeTransition (fun _ _ _ => false) (boundaryBlock balance)
    (((boundaryBlock balance).execution simpleChain).getD ⟨0, 0, 0, [], []⟩)

/-- Both blocks are applied, the second at a boundary; the stake succeeds if the account has it. -/
theorem ValidatorRegistry.backed_run_funded :
    (beforeBoundary 9000).Backed simpleChain ([stakingBlock 9000] ++ [boundaryBlock 9000]) 3 false ∧
      ((beforeBoundary 9000).epochManager.joined (beforeBoundary 9000).validatorSet 3
        false).validatorSet.ownStake 9 = 5000 := by
  refine ⟨backed_run simpleChain (fun _ _ _ => false) (delegatedSet 0) [stakingBlock 9000]
    (boundaryBlock 9000) _ ?_ ?_, by decide +kernel⟩
  · intro call hcall _ tx htx _
    rcases List.mem_append.mp hcall with hcall | hcall
    · obtain rfl := List.mem_singleton.mp hcall
      exact htx
    · obtain rfl := List.mem_singleton.mp hcall
      cases htx
  · rfl

/-- An account of 10 cannot stake 5000, but its validator joins with a stake of 5000. -/
theorem ValidatorRegistry.unpaid_stake_joins :
    EpochTransitionManager.isEpochBoundary (boundaryBlock 10).input.block.number = true ∧
      ((boundaryBlock 10).execution simpleChain).isSome = true ∧
      ¬ (beforeBoundary 10).Backed simpleChain [stakingBlock 10, boundaryBlock 10] 3 false := by
  refine ⟨by decide, by decide +kernel, fun h => ?_⟩
  have hsome : (((beforeBoundary 10).epochManager.joined (beforeBoundary 10).validatorSet 3
      false).validatorSet.get 9).isSome := by decide +kernel
  obtain ⟨v, hv⟩ := Option.isSome_iff_exists.mp hsome
  obtain ⟨call, hcall, tx, htx, -⟩ := h.added 9 v hv (by decide +kernel)
  -- nothing succeeded in either block
  have hnone : ∀ c ∈ [stakingBlock 10, boundaryBlock 10], c.succeeded simpleChain = [] := by
    intro c hc
    rcases List.mem_pair.mp hc with rfl | rfl <;> decide +kernel
  rw [hnone call hcall] at htx
  cases htx

end EvaporChain
