import EvaporChain.Core.Command
import EvaporChain.Script.Value

/-!
# The stack machine

State of the machine that runs EvaporScript bytecode, and the commands of which its opcodes consist:
charging gas, counting memory, the stack, local names, contract state and events.
-/

namespace EvaporChain.Script

open Core Routine

/-- State fields of a contract. -/
abbrev ScriptState := Finmap fun _ : String => Value

/-- What a running method knows about its call. -/
structure ExecutionContext where
  caller : AccountAddress
  owner : AccountAddress
  epoch : ℕ
  energy : ℕ
  vrfRandomness : Hash
  /-- 0 for the call of a transaction. -/
  callDepth : ℕ
deriving DecidableEq

/-- The machine. The top of the stack is the head of the list. -/
structure EvaporVm where
  stack : List Value
  locals : String → Option Value
  state : ScriptState
  events : List String
  structuredEvents : List ContractEvent
  gasUsed : ℕ
  gasLimit : ℕ
  stepCount : ℕ
  memoryUsed : ℕ
  /-- Backward jumps of the running method. -/
  loopCounter : ℕ
  inLifecycleHook : Bool
  executingContractId : ℕ
  /-- History: the opcodes this machine has completed. Nothing reads it. -/
  completed : ℕ
  /-- History: the events this machine has emitted itself. Nothing reads it. -/
  emitted : List ContractEvent

def maxStackDepth : ℕ := 1024

def maxLoopIterations : ℕ := 100000

def maxStringLen : ℕ := 1048576

def maxEventTopics : ℕ := 64

def maxMapEntries : ℕ := 10000

def maxArraySize : ℕ := 10000

def maxStateKeys : ℕ := 10000

def maxSteps : ℕ := 10000000

def maxMemoryBytes : ℕ := 4194304

def maxCallDepth : ℕ := 8

namespace EvaporVm

def new (state : ScriptState) (gasLimit : ℕ) : EvaporVm where
  stack := []
  locals _ := none
  state := state
  events := []
  structuredEvents := []
  gasUsed := 0
  gasLimit := gasLimit
  stepCount := 0
  memoryUsed := 0
  loopCounter := 0
  inLifecycleHook := false
  executingContractId := 0
  completed := 0
  emitted := []

variable (vm : EvaporVm)

def trackMemory (bytes : ℕ) : Except ScriptError EvaporVm :=
  let memoryUsed := satAdd vm.memoryUsed bytes
  if memoryUsed > maxMemoryBytes then .error (.runtime (.memoryLimitExceeded memoryUsed))
  else .ok { vm with memoryUsed }

def chargeGas (cost : ℕ) : Except ScriptError EvaporVm :=
  let gasUsed := vm.gasUsed + cost
  if gasUsed > u64Max then .error (.gasLimitExceeded u64Max vm.gasLimit)
  else if gasUsed > vm.gasLimit then .error (.gasLimitExceeded gasUsed vm.gasLimit)
  else .ok { vm with gasUsed }

def push (v : Value) : Except ScriptError EvaporVm :=
  if vm.stack.length ≥ maxStackDepth then .error (.runtime .stackOverflow)
  else .ok { vm with stack := v :: vm.stack }

def pop : Except ScriptError (Value × EvaporVm) :=
  match vm.stack with
  | [] => .error (.runtime .stackUnderflow)
  | v :: stack => .ok (v, { vm with stack })

/-- A backward jump. -/
def countLoop : Except ScriptError EvaporVm :=
  let loopCounter := vm.loopCounter + 1
  if loopCounter > maxLoopIterations then .error (.runtime .loopLimitExceeded)
  else .ok { vm with loopCounter }

end EvaporVm

/-! ### Commands -/

/-- The steps of an opcode. -/
inductive Cmd
  | fail (error : ScriptError)
  | charge (cost : ℕ)
  | track (bytes : ℕ)
  | push (v : Value)
  | pop
  /-- Pop, or null if the stack is empty. -/
  | popOrNull
  | countLoop
  | load (name : String)
  | store (name : String) (v : Value)
  | stateLoad (field : String)
  | stateStore (field : String) (v : Value)
  /-- Number of state fields. -/
  | stateLen
  | log (message : String)
  | emit (event : ContractEvent)

def Cmd.Answer : Cmd → Type
  | .fail _ => Empty
  | .pop => Value
  | .popOrNull => Value
  | .load _ => Option Value
  | .stateLoad _ => Option Value
  | .stateLen => ℕ
  | _ => Unit

/-- Run a command. -/
def EvaporVm.handle (c : Cmd) (vm : EvaporVm) : Except ScriptError (c.Answer × EvaporVm) :=
  match c with
  | .fail error => .error error
  | .charge cost => (vm.chargeGas cost).map fun vm => ((), vm)
  | .track bytes => (vm.trackMemory bytes).map fun vm => ((), vm)
  | .push v => (vm.push v).map fun vm => ((), vm)
  | .pop => vm.pop
  | .popOrNull =>
    match vm.stack with
    | [] => .ok (.null, vm)
    | v :: stack => .ok (v, { vm with stack })
  | .countLoop => vm.countLoop.map fun vm => ((), vm)
  | .load name => .ok (vm.locals name, vm)
  | .store name v =>
    .ok ((), { vm with locals := Function.update vm.locals name (some v) })
  | .stateLoad field => .ok (vm.state.lookup field, vm)
  | .stateStore field v => .ok ((), { vm with state := vm.state.insert field v })
  | .stateLen => .ok (vm.state.keys.card, vm)
  | .log message => .ok ((), { vm with events := vm.events ++ [message] })
  | .emit event =>
    .ok ((), { vm with
      structuredEvents := vm.structuredEvents ++ [event]
      emitted := vm.emitted ++ [event] })

abbrev VmM := Routine Cmd Cmd.Answer

/-- Run a routine of the machine. -/
def VmM.exec {α : Type} (p : VmM α) (vm : EvaporVm) : Except ScriptError (α × EvaporVm) :=
  p.run EvaporVm.handle vm

namespace VmM

variable {α : Type}

def fail (error : ScriptError) : VmM α := call (Cmd.fail error) Empty.elim

def runtime (message : RuntimeError) : VmM α := fail (.runtime message)

def chargeGas (cost : ℕ) : VmM Unit := issue (Cmd.charge cost)

def trackMemory (bytes : ℕ) : VmM Unit := issue (Cmd.track bytes)

def push (v : Value) : VmM Unit := issue (Cmd.push v)

def pop : VmM Value := issue Cmd.pop

def popOrNull : VmM Value := issue Cmd.popOrNull

def countLoop : VmM Unit := issue Cmd.countLoop

def load (name : String) : VmM (Option Value) := issue (Cmd.load name)

def store (name : String) (v : Value) : VmM Unit := issue (Cmd.store name v)

def stateLoad (field : String) : VmM (Option Value) := issue (Cmd.stateLoad field)

def stateStore (field : String) (v : Value) : VmM Unit := issue (Cmd.stateStore field v)

def stateLen : VmM ℕ := issue Cmd.stateLen

def log (message : String) : VmM Unit := issue (Cmd.log message)

def emit (event : ContractEvent) : VmM Unit := issue (Cmd.emit event)

def asU64 : Value → VmM ℕ
  | .u64 n => pure n
  | other => runtime (.expectedU64 other)

def asBool : Value → VmM Bool
  | .bool b => pure b
  | other => runtime (.expectedBool other)

def asStr : Value → VmM String
  | .str s => pure s
  | other => runtime (.expectedString other)

def asAddress : Value → VmM AccountAddress
  | .address a => pure a
  | other => runtime (.expectedAddress other)

def popU64 : VmM ℕ := do asU64 (← pop)

def popBool : VmM Bool := do asBool (← pop)

def popStr : VmM String := do asStr (← pop)

def popAddress : VmM AccountAddress := do asAddress (← pop)

/-- Pop values, the last one first; the result is in the order in which they were pushed. -/
def popMany : ℕ → VmM (List Value)
  | 0 => pure []
  | count + 1 => do
    let v ← pop
    let vs ← popMany count
    pure (vs ++ [v])

/-! ### Running the commands -/

section Exec

variable {β : Type} (vm : EvaporVm)

lemma exec_bind_ok {vm} {p : VmM α} {f : α → VmM β} {x : β × EvaporVm}
    (h : (p >>= f).exec vm = .ok x) :
    ∃ a vm', p.exec vm = .ok (a, vm') ∧ (f a).exec vm' = .ok x := run_bind_ok h

@[simp] lemma exec_chargeGas (cost : ℕ) :
    (chargeGas cost).exec vm = (vm.chargeGas cost).map fun vm => ((), vm) :=
  run_issue (Cmd.charge cost) vm

end Exec

end VmM

end EvaporChain.Script
