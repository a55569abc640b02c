import EvaporChain.Execution.Effects

/-!
# Calls of contracts

The contract engine evaluates the rules of a contract, runs a method of its template and takes the
energy that the rules ask for last. A call that fails there keeps what the method wrote.
-/

namespace EvaporChain

open Core Function

namespace Contracts

inductive ContractTemplate
  | decayingToken | mortalNFT | thermodynamicEscrow | decayingAuction | stakingPool | daoVote
  | decayingDAO | temporalContract

inductive RuleTrigger
  | onTransfer | onMint | onBurn | onRefresh | onTick | onDeploy | onCall
deriving DecidableEq

inductive ComparisonOp
  | gt | lt | eq | gte | lte | neq

inductive RuleCondition
  | always
  | ifField (field : String) (op : ComparisonOp) (value : ℕ)

inductive RuleAction
  | costEnergy (cost : ℕ)
  | reject
  | emitEvent (msg : String)
  | burnAmount (pct : ℕ)
deriving DecidableEq

def RuleAction.energyCost : RuleAction → Option ℕ
  | .costEnergy cost => some cost
  | _ => none

structure Rule where
  trigger : RuleTrigger
  condition : RuleCondition
  action : RuleAction

structure ContractInstance (J : Type) where
  template : ContractTemplate
  state : J
  rules : List Rule
  creator : AccountAddress
  energy : ℕ
  halfLife : ℕ
  lastRefreshed : ℕ
  evaporated : Bool

variable {J : Type}

def ContractInstance.energyAt (contract : ContractInstance J) (epoch : ℕ) : ℕ :=
  if contract.evaporated then 0
  else energyAtEpoch contract.energy contract.halfLife (epoch - contract.lastRefreshed)

/-- The methods of the templates, over states that are JSON values. -/
structure Templates (J : Type) where
  /-- `executeMethod template state method args caller creator epoch`; a method that fails has no
  effect, as the engine restores the state. -/
  executeMethod : ContractTemplate → J → String → String → AccountAddress → AccountAddress → ℕ →
    Except String J
  /-- A field of the arguments, if it is a `u64`. -/
  argument : String → String → Option ℕ
  /-- Bytes of a state. -/
  stateSize : J → ℕ

def maxContractStateBytes : ℕ := 1048576

def methodToTrigger (method : String) : RuleTrigger :=
  if method = "transfer" then .onTransfer
  else if method = "mint" then .onMint
  else if method = "burn" then .onBurn
  else if method = "refresh" ∨ method = "refresh_balance" then .onRefresh
  else .onCall

def evaluateCondition (argument : String → Option ℕ) : RuleCondition → Bool
  | .always => true
  | .ifField field op value =>
    let fieldVal := (argument field).getD 0
    match op with
    | .gt => value < fieldVal
    | .lt => fieldVal < value
    | .eq => fieldVal == value
    | .gte => value ≤ fieldVal
    | .lte => fieldVal ≤ value
    | .neq => fieldVal != value

/-- A rule takes part in a call. -/
def Rule.applies (trigger : RuleTrigger) (argument : String → Option ℕ) (rule : Rule) : Bool :=
  (rule.trigger == trigger || rule.trigger == .onCall) && evaluateCondition argument rule.condition

/-- The energy that the rules of a call ask for; there is none if one of them rejects it. -/
def evaluateRules (trigger : RuleTrigger) (argument : String → Option ℕ) :
    List Rule → ℕ → Option ℕ
  | [], energyCost => some energyCost
  | rule :: rules, energyCost =>
    if rule.applies trigger argument then
      match rule.action with
      | .reject => none
      | .costEnergy cost => evaluateRules trigger argument rules (satAdd energyCost cost)
      | .emitEvent _ | .burnAmount _ => evaluateRules trigger argument rules energyCost
    else evaluateRules trigger argument rules energyCost

abbrev Engine (J : Type) := ℕ → Option (ContractInstance J)

section

variable (templates : Templates J) (engine : Engine J) (contractId : ℕ) (method args : String)
  (caller : AccountAddress) (epoch : ℕ)

def call : Except String Unit × Engine J :=
  match engine contractId with
  | none => (.error s!"contract not found: {contractId}", engine)
  | some contract =>
    let current := contract.energyAt epoch
    if current = 0 then (.error s!"contract evaporated: {contractId}", engine)
    else
      match evaluateRules (methodToTrigger method) (templates.argument args) contract.rules 0 with
      | none => (.error s!"rejected by rule: Rule rejected call to {method}", engine)
      | some energyCost =>
        match templates.executeMethod contract.template contract.state method args caller
            contract.creator epoch with
        | .error e => (.error e, engine)
        | .ok state =>
          let size := templates.stateSize state
          if maxContractStateBytes < size then
            (.error
              s!"contract storage quota exceeded: {size} bytes > {maxContractStateBytes} bytes",
              engine)
          else if current < energyCost then
            -- the snapshot of the state is not used here
            (.error s!"insufficient funds: have {current}, need {energyCost}",
              update engine contractId (some { contract with state := state }))
          else
            (.ok (), update engine contractId
              (some { contract with state := state, energy := contract.energy - energyCost }))

/-- A method succeeds and changes the state of a contract that is alive, but the rules ask for more
energy than the contract has. -/
def Strands : Prop :=
  ∃ contract ∈ engine contractId, ∃ state,
    let applied := contract.rules.filter
      (·.applies (methodToTrigger method) (templates.argument args))
    (∀ rule ∈ applied, rule.action ≠ .reject) ∧ 0 < contract.energyAt epoch ∧
      contract.energyAt epoch < satSum (applied.filterMap (·.action.energyCost)) ∧
      templates.executeMethod contract.template contract.state method args caller contract.creator
        epoch = .ok state ∧
      templates.stateSize state ≤ maxContractStateBytes ∧ state ≠ contract.state

end

lemma evaluateRules_eq (trigger : RuleTrigger) (argument : String → Option ℕ) (rules : List Rule)
    (energyCost : ℕ) :
    let applied := rules.filter (·.applies trigger argument)
    evaluateRules trigger argument rules energyCost =
      if ∀ rule ∈ applied, rule.action ≠ .reject then
        some ((applied.filterMap (·.action.energyCost)).foldl satAdd energyCost)
      else none := by
  induction rules generalizing energyCost with
  | nil => simp [evaluateRules]
  | cons rule rules ih =>
    dsimp only at ih ⊢
    rw [evaluateRules, List.filter_cons]
    by_cases happlies : rule.applies trigger argument
    · rw [if_pos happlies, if_pos happlies, List.filterMap_cons]
      cases haction : rule.action <;> simp [ih, haction, RuleAction.energyCost]
    · rw [if_neg happlies, if_neg happlies, ih]

variable {templates : Templates J} {engine engine' : Engine J} {contractId : ℕ}
  {method args e : String} {caller : AccountAddress} {epoch : ℕ}

/-- A call that fails changes the engine exactly if it strands a state. -/
lemma call_error_iff
    (h : call templates engine contractId method args caller epoch = (.error e, engine')) :
    engine' = engine ↔ ¬Strands templates engine contractId method args caller epoch := by
  simp only [call] at h
  unfold Strands
  cases hcontract : engine contractId with
  | none =>
    simp only [hcontract] at h
    cases h
    simp
  | some contract =>
    simp only [hcontract, evaluateRules_eq] at h
    simp only [Option.mem_some_iff, exists_eq_left']
    split_ifs at h with hzero hrules
    · cases h
      simp [hzero]
    · cases hmethod : templates.executeMethod contract.template contract.state method args caller
        contract.creator epoch with
      | error _ =>
        simp only [hmethod] at h
        cases h
        simp
      | ok state =>
        simp only [hmethod] at h
        split_ifs at h with hsize hfunds
        · cases h
          refine iff_of_true rfl ?_
          rintro ⟨_, -, -, -, hstate, hle, -⟩
          cases hstate
          omega
        · cases h
          constructor
          · rintro hsame ⟨_, -, -, -, hstate, -, hne⟩
            cases hstate
            have hget := congrFun hsame contractId
            rw [update_self, hcontract] at hget
            exact hne (congrArg ContractInstance.state (Option.some_inj.mp hget))
          · intro hkept
            have hstate : state = contract.state := by
              by_contra hne
              exact hkept ⟨state, hrules, Nat.pos_of_ne_zero hzero, hfunds, rfl, not_lt.mp hsize,
                hne⟩
            rw [hstate, ← hcontract, update_eq_self]
        · cases h
    · cases h
      exact iff_of_true rfl fun ⟨_, hnone, _⟩ => hrules hnone

end Contracts

namespace Simple

open Contracts

variable {J S : Type} (env : ChainEnv (Engine J) S) (templates : Templates J) {cfg : ExecConfig}
  {epoch : ℕ} {st st' : ChainState (Engine J) S} {e : ExecutionError}

/-- A call reaches the engine and strands a state there. -/
def StrandsCall (tx : CallContractTx) (st : ChainState (Engine J) S) : Prop :=
  st.callDepth < maxCallDepth ∧ tx.args.utf8ByteSize ≤ maxArgsBytes ∧
    env.jsonError tx.args = none ∧
    Strands templates st.contractEngine tx.contractId tx.method tx.args tx.caller tx.epoch

/-- A sponsored operation holds such a call. -/
def StrandsOp (tx : UserOpTx) (st : ChainState (Engine J) S) : Prop :=
  ∃ inner call, env.decodeTransaction tx.callData = .ok inner ∧
    inner.body = .callContract call ∧ call.caller = tx.sender ∧ StrandsCall env templates call st

variable {env templates} (hcall : env.contracts.call = Contracts.call templates)

include hcall

lemma contractEngine_executeCallContract_iff {tx : CallContractTx}
    (h : executeCallContract env tx st = (.error e, st')) :
    st'.contractEngine = st.contractEngine ↔ ¬StrandsCall env templates tx st := by
  unfold executeCallContract at h
  split_ifs at h with hdepth hargs
  · cases h
    exact iff_of_true rfl fun hstrands => hstrands.1.not_ge hdepth
  · cases h
    exact iff_of_true rfl fun hstrands => hstrands.2.1.not_gt hargs
  · cases hjson : env.jsonError tx.args with
    | some _ =>
      simp only [hjson] at h
      cases h
      exact iff_of_true rfl fun hstrands => by simp [StrandsCall, hjson] at hstrands
    | none =>
      simp only [hjson, hcall] at h
      cases hresult : Contracts.call templates st.contractEngine tx.contractId tx.method tx.args
        tx.caller tx.epoch with
      | mk result engine =>
        rw [hresult] at h
        cases result with
        | ok _ => cases h
        | error _ =>
          cases h
          rw [StrandsCall, and_iff_right (not_le.mp hdepth), and_iff_right (not_lt.mp hargs),
            and_iff_right hjson]
          exact call_error_iff hresult

lemma contractEngine_executeInner_iff {sender : AccountAddress} {inner : Transaction}
    (h : executeInner env epoch sender inner st = (.error e, st')) :
    st'.contractEngine = st.contractEngine ↔ ¬∃ call, inner.body = .callContract call ∧
      call.caller = sender ∧ StrandsCall env templates call st := by
  unfold executeInner at h
  split at h
  · rename_i hbody
    obtain ⟨_, -, rfl⟩ := onLedger_eq h
    simp [hbody]
  · rename_i hbody
    rw [hbody]
    split_ifs at h
    · cases h
      simp
    · rw [executeCallScript_error h]
      simp
  · rename_i tx hbody
    rw [hbody]
    split_ifs at h with hcaller
    · cases h
      refine iff_of_true rfl ?_
      rintro ⟨_, hcall, heq, -⟩
      cases hcall
      exact hcaller heq
    · rw [contractEngine_executeCallContract_iff hcall h]
      simp [not_not.mp hcaller]
  · rename_i hother
    have hst : st' = st := by
      split at h <;> cases h <;> rfl
    refine iff_of_true (congrArg _ hst) ?_
    rintro ⟨call, hbody, -⟩
    exact hother call hbody

lemma contractEngine_executeUserOp_iff {tx : UserOpTx}
    (h : executeUserOp env cfg epoch tx st = (.error e, st'))
    (hok : (checkUserOp env cfg tx st.db).1.isOk) :
    st'.contractEngine = st.contractEngine ↔ ¬StrandsOp env templates tx st := by
  unfold executeUserOp at h
  split at h
  · rename_i hcheck
    rw [hcheck] at hok
    cases hok
  · split_ifs at h
    · cases h
    unfold StrandsOp
    cases hinner : env.decodeTransaction tx.callData with
    | error _ =>
      simp only [hinner] at h
      cases h
      simp
    | ok inner =>
      simp only [hinner] at h
      rw [contractEngine_executeInner_iff hcall h]
      simp [StrandsCall]

end Simple

end EvaporChain
