import EvaporChain.Script.Execution

/-!
# The script engine

Deployed contracts and calls of their methods. A call works on clones of all contracts; what nested
calls write is collected as patches, which are applied when the whole call has succeeded.
-/

namespace EvaporChain.Script

open Core

structure ScriptContract where
  bytecode : EvaporBytecode
  state : ScriptState
  creator : AccountAddress
  energy : ℕ
  halfLife : ℕ
  lastRefreshed : ℕ
  evaporated : Bool

def ScriptContract.energyAt (contract : ScriptContract) (epoch : ℕ) : ℕ :=
  energyAtEpoch contract.energy contract.halfLife (epoch - contract.lastRefreshed)

/-- The contract that a call runs. It has not evaporated and has energy left. -/
def liveContract (contracts : ℕ → Option ScriptContract) (contractId epoch : ℕ) :
    Except RuntimeError ScriptContract :=
  match contracts contractId with
  | none => .error (.contractNotFound contractId)
  | some contract =>
    if contract.evaporated then .error (.contractEvaporated contractId)
    else if contract.energyAt epoch = 0 then .error (.contractNoEnergy contractId)
    else .ok contract

/-- The contract that a nested call runs. -/
def CallRequest.target (request : CallRequest) (contracts : ℕ → Option ScriptContract)
    (activeCalls : Finset ℕ) : Except RuntimeError ScriptContract :=
  if request.callDepth ≥ maxCallDepth then .error .callDepthExceeded
  else if request.contractId ∈ activeCalls then .error (.reentrancyDetected request.contractId)
  else liveContract contracts request.contractId request.epoch

/-- All deployed contracts. -/
structure ScriptEngine where
  contracts : ℕ → Option ScriptContract
  vrfRandomness : Hash

structure ScriptCallResult where
  returnValue : Value
  events : List String
  structuredEvents : List ContractEvent
  gasUsed : ℕ
  stateChanges : ScriptState

/-- Start of a nested call: the clone it runs on and the state in which earlier calls of the same
transaction have left the contract. -/
structure CallStart where
  contractId : ℕ
  clone : ScriptState
  current : ScriptState

/-- History of a call tree: the opcodes completed by all machines, the events they emitted with the
depth of the machine, and the nested calls. -/
structure CallTrace where
  completed : ℕ
  emitted : List (ℕ × ContractEvent)
  starts : List CallStart

/-- Add what one machine has done. -/
def CallTrace.add (trace : CallTrace) (callDepth : ℕ) (vm : EvaporVm) : CallTrace :=
  { trace with
    completed := trace.completed + vm.completed
    emitted := trace.emitted ++ vm.emitted.map fun event => (callDepth, event) }

/-- Clones of the contracts for the calls of one transaction. -/
structure ContractCallRouter where
  contracts : ℕ → Option ScriptContract
  vrfRandomness : Hash
  statePatches : List (ℕ × ScriptState)
  collectedEvents : List ContractEvent
  activeCalls : Finset ℕ
  /-- History. Nothing reads it. -/
  trace : CallTrace

namespace ContractCallRouter

def fromEngine (engine : ScriptEngine) : ContractCallRouter where
  contracts := engine.contracts
  vrfRandomness := engine.vrfRandomness
  statePatches := []
  collectedEvents := []
  activeCalls := ∅
  trace := ⟨0, [], []⟩

/-- Write a patch over a state. -/
def patched (contractId : ℕ) (state : ScriptState) (patches : List (ℕ × ScriptState)) :
    ScriptState :=
  patches.foldl (fun state patch => if patch.1 = contractId then patch.2 ∪ state else state) state

variable (router : ContractCallRouter)

def enter (contractId : ℕ) (state : ScriptState) : ContractCallRouter :=
  { router with
    activeCalls := insert contractId router.activeCalls
    trace := { router.trace with
      starts := router.trace.starts ++
        [⟨contractId, state, patched contractId state router.statePatches⟩] } }

def leave (contractId callDepth : ℕ) (vm : EvaporVm) : ContractCallRouter :=
  { router with
    activeCalls := router.activeCalls.erase contractId
    trace := router.trace.add callDepth vm }

/-- Keep the effects of a nested call. -/
def collect (contractId : ℕ) (vm : EvaporVm) : ContractCallRouter :=
  { router with
    statePatches := router.statePatches ++ [(contractId, vm.state)]
    collectedEvents := router.collectedEvents ++ vm.structuredEvents }

/-- A nested call; `levels` bounds the depth of the recursion. -/
def callExternal (host : ScriptHost) (fuel : ℕ) : ℕ → ExternalCaller ContractCallRouter
  | 0, _, _ => none
  | levels + 1, request, router =>
    match request.target router.contracts router.activeCalls with
    | .error e => some (.error (.runtime e), router)
    | .ok contract =>
      let ctx : ExecutionContext :=
        ⟨request.caller, contract.creator, request.epoch, contract.energyAt request.epoch,
          router.vrfRandomness, request.callDepth⟩
      match executeFullWithSelf host fuel contract.bytecode request.method request.args
        contract.state ctx request.gasRemaining (some (callExternal host fuel levels))
        request.contractId (router.enter request.contractId contract.state) with
      | none => none
      | some ⟨result, vm, router⟩ =>
        let router := router.leave request.contractId request.callDepth vm
        match result with
        | .error e => some (.error e, router)
        | .ok v =>
          some (.ok ⟨v, vm.structuredEvents, vm.gasUsed⟩, router.collect request.contractId vm)

end ContractCallRouter

/-- End of a call: result, contracts afterwards and the history of the call tree. -/
structure CallOutcome where
  result : Except ScriptError ScriptCallResult
  engine : ScriptEngine
  trace : CallTrace

namespace ScriptEngine

/-- Insert the entries of a patch into the state of a contract, if it exists. -/
def applyPatch (engine : ScriptEngine) (patch : ℕ × ScriptState) : ScriptEngine :=
  match engine.contracts patch.1 with
  | none => engine
  | some target =>
    { engine with
      contracts := Function.update engine.contracts patch.1
        (some { target with state := patch.2 ∪ target.state }) }

def callWithVmGas (engine : ScriptEngine) (host : ScriptHost) (fuel contractId : ℕ)
    (method : String) (args : List Value) (caller : AccountAddress) (currentEpoch vmGasLimit : ℕ) :
    Option CallOutcome :=
  match liveContract engine.contracts contractId currentEpoch with
  | .error e => some ⟨.error (.runtime e), engine, ⟨0, [], []⟩⟩
  | .ok contract =>
    let ctx : ExecutionContext :=
      ⟨caller, contract.creator, currentEpoch, contract.energyAt currentEpoch,
        engine.vrfRandomness, 0⟩
    let router := ContractCallRouter.fromEngine engine
    match executeFullWithSelf host fuel contract.bytecode method args contract.state ctx
      vmGasLimit (some (ContractCallRouter.callExternal host fuel fuel)) contractId
      { router with activeCalls := insert contractId router.activeCalls } with
    | none => none
    | some ⟨result, vm, router⟩ =>
      let trace := router.trace.add 0 vm
      match result with
      | .error e => some ⟨.error e, engine, trace⟩
      | .ok v =>
        let engine := engine.applyPatch (contractId, vm.state)
        let engine := router.statePatches.foldl applyPatch engine
        some ⟨.ok ⟨v, vm.events, vm.structuredEvents ++ router.collectedEvents, vm.gasUsed,
          vm.state⟩, engine, trace⟩

end ScriptEngine

/-! ### Small engines -/

def plainHost : ScriptHost := ⟨fun _ => Hash.zero, fun _ => ""⟩

/-- A contract with one method `run`. -/
def contractOf (opcodes : List Op) (state : ScriptState) : ScriptContract where
  bytecode := ⟨(∅ : Dict String ℕ).insert "run" 0, opcodes⟩
  state := state
  creator := Hash.zero
  energy := 100
  halfLife := 10
  lastRefreshed := 0
  evaporated := false

def engineOf (contracts : List ScriptContract) : ScriptEngine where
  contracts id := if id = 0 then none else contracts[id - 1]?
  vrfRandomness := Hash.zero

end EvaporChain.Script
