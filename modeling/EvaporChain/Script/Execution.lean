import EvaporChain.Script.Opcodes

/-!
# Running a method

The loop of the machine over the instructions of a method. Calls of other contracts go through an
external caller with a state of its own. `none` stands for a run that has not come to an end with
the given fuel.
-/

namespace EvaporChain.Script

open Core

/-- A call of another contract. -/
structure CallRequest where
  contractId : ℕ
  method : String
  args : List Value
  caller : AccountAddress
  epoch : ℕ
  callDepth : ℕ
  gasRemaining : ℕ
deriving DecidableEq

/-- What a successful call returns. -/
structure CallReply where
  returnVal : Value
  events : List ContractEvent
  gasUsed : ℕ

/-- Whoever carries out the calls of other contracts. -/
abbrev ExternalCaller (σ : Type) := CallRequest → σ → Option (Except ScriptError CallReply × σ)

/-- Identity of a contract as the caller of another one. -/
def contractAddress (host : ScriptHost) (contractId : ℕ) : AccountAddress :=
  host.blake3 (utf8Bytes "EVAPORCHAIN_V1_SCRIPT_CONTRACT_ID\x00" ++ leBytes 8 contractId)

/-- What does not change while a method runs. -/
structure Method (σ : Type) where
  host : ScriptHost
  opcodes : List Op
  ctx : ExecutionContext
  external : Option (ExternalCaller σ)

/-- End of a run. After an error the machine is the one before the failed instruction. -/
structure RunResult (σ : Type) where
  result : Except ScriptError Value
  vm : EvaporVm
  caller : σ

namespace EvaporVm

variable (vm : EvaporVm)

def tick : EvaporVm := { vm with stepCount := vm.stepCount + 1 }

/-- Note that an instruction is completed. -/
def complete : EvaporVm := { vm with completed := vm.completed + 1 }

/-- The request for a call. A contract is the caller of the contracts it calls; machines without an
identity pass their own caller on. -/
def callRequest (host : ScriptHost) (ctx : ExecutionContext) (contractId : ℕ)
    (method : String) (args : List Value) : CallRequest where
  contractId := contractId
  method := method
  args := args
  caller := if vm.executingContractId ≠ 0 then contractAddress host vm.executingContractId
    else ctx.caller
  epoch := ctx.epoch
  callDepth := ctx.callDepth + 1
  gasRemaining := vm.gasLimit - vm.gasUsed

/-- What the machine does when a called contract has returned. -/
def afterCall (reply : CallReply) : Except ScriptError EvaporVm := do
  let vm ← vm.chargeGas reply.gasUsed
  let vm := { vm with structuredEvents := vm.structuredEvents ++ reply.events }
  vm.push reply.returnVal

end EvaporVm

variable {σ : Type}

/-- Result of one round of the loop. -/
inductive Round (σ : Type)
  | done (result : RunResult σ)
  | goto (ip : ℕ) (vm : EvaporVm) (caller : σ)

/-- Carry out a call of another contract and go on behind it. -/
def Method.callRound (m : Method σ) (ip : ℕ) (request : CallRequest) (vm : EvaporVm) (s : σ) :
    Option (Round σ) :=
  match m.external with
  | none => some (.done ⟨.error (.runtime .callsNotAvailable), vm, s⟩)
  | some ext =>
    match ext request s with
    | none => none
    | some (.error e, s') => some (.done ⟨.error e, vm, s'⟩)
    | some (.ok reply, s') =>
      match vm.afterCall reply with
      | .error e => some (.done ⟨.error e, vm, s'⟩)
      | .ok vm => some (.goto (ip + 1) vm.complete s')

/-- One round: count the step and execute the instruction at `ip`. -/
def Method.round (m : Method σ) (ip : ℕ) (vm : EvaporVm) (s : σ) : Option (Round σ) :=
  match m.opcodes[ip]? with
  | none => some (.done ⟨.ok .null, vm, s⟩)
  | some op =>
    if vm.tick.stepCount > maxSteps then
      some (.done ⟨.error (.stepLimitExceeded vm.tick.stepCount maxSteps), vm.tick, s⟩)
    else
      match (execOp m.host m.ctx vm.inLifecycleHook m.opcodes.length ip op).exec vm.tick with
      | .error e => some (.done ⟨.error e, vm.tick, s⟩)
      | .ok (.next, vm) => some (.goto (ip + 1) vm.complete s)
      | .ok (.jump target, vm) => some (.goto target vm.complete s)
      | .ok (.ret v, vm) => some (.done ⟨.ok v, vm.complete, s⟩)
      | .ok (.call contractId method args, vm) =>
        m.callRound ip (vm.callRequest m.host m.ctx contractId method args) vm s

/-- Rounds until the method returns or fails. -/
def Method.loop (m : Method σ) : ℕ → ℕ → EvaporVm → σ → Option (RunResult σ)
  | 0, _, _, _ => none
  | fuel + 1, ip, vm, s =>
    match m.round ip vm s with
    | none => none
    | some (.done result) => some result
    | some (.goto ip' vm' s') => m.loop fuel ip' vm' s'

/-- Push the arguments, the first one deepest. -/
def EvaporVm.pushArgs (vm : EvaporVm) (args : List Value) : Except ScriptError EvaporVm :=
  args.foldlM (fun vm arg => vm.push arg) vm

/-- Run a method of compiled code. -/
def Method.executeMethod (m : Method σ) (fuel : ℕ) (methods : Dict String ℕ) (method : String)
    (args : List Value) (vm : EvaporVm) (s : σ) : Option (RunResult σ) :=
  match methods.lookup method with
  | none => some ⟨.error (.runtime (.methodNotFound method)), vm, s⟩
  | some startOffset =>
    match vm.pushArgs args with
    | .error e => some ⟨.error e, vm, s⟩
    | .ok vm => m.loop fuel startOffset vm s

/-- Methods that run while the chain changes the object of the contract. -/
def isLifecycleHook (method : String) : Bool :=
  method == "on_grace" || method == "on_refresh" || method == "on_evaporate"

/-- Run a method on a new machine that knows its own contract. -/
def executeFullWithSelf (host : ScriptHost) (fuel : ℕ) (bytecode : EvaporBytecode)
    (method : String) (args : List Value) (state : ScriptState) (ctx : ExecutionContext)
    (gasLimit : ℕ) (external : Option (ExternalCaller σ))
    (executingContractId : ℕ) (s : σ) : Option (RunResult σ) :=
  let vm := { EvaporVm.new state gasLimit with
    executingContractId, inLifecycleHook := isLifecycleHook method }
  let m : Method σ := ⟨host, bytecode.opcodes, ctx, external⟩
  m.executeMethod fuel bytecode.methods method args vm s

end EvaporChain.Script
