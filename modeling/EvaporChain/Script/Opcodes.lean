import EvaporChain.Execution.Ledger
import EvaporChain.Script.Machine

/-!
# Opcodes

The instructions of EvaporScript bytecode as routines of the stack machine, with the functions that
a script can call by name.
-/

namespace EvaporChain.Script

open Core VmM

/-! ### Instructions -/

/-- Instruction set. Jump targets are absolute. -/
inductive Op
  | push (v : Value)
  | pop
  | load (name : String)
  | store (name : String)
  | stateLoad (field : String)
  | stateStore (field : String)
  | add
  | sub
  | mul
  | div
  | mod
  | shl
  | shr
  | eq
  | neq
  | gt
  | lt
  | gte
  | lte
  | and
  | or
  | not
  | neg
  | jump (target : ℕ)
  | jumpIf (target : ℕ)
  | jumpIfFalse (target : ℕ)
  | call (name : String) (argCount : ℕ)
  | mapGet (field : String)
  | mapSet (field : String)
  | require
  | arrayNew (count : ℕ)
  | arrayGet
  | arraySet (name : String)
  | emit
  | emitEvent (name : String) (topicCount : ℕ)
  | ret
  | halt
  | epochNow
  | blockNum
  | energyOf
  | requireEpochRange
  | computeDecay
  | vrfRandomness
  | vrfDomainRandomness
  | randomRange
  | callExternal (argCount : ℕ)
deriving DecidableEq

/-- Compiled code: where methods start, and the instructions. -/
structure EvaporBytecode where
  methods : Dict String ℕ
  opcodes : List Op

/-- Where control goes after an instruction. -/
inductive Flow
  | next
  | jump (target : ℕ)
  | ret (v : Value)
  | call (contractId : ℕ) (method : String) (args : List Value)
deriving DecidableEq

/-! ### Gas -/

def gasPush : ℕ := 1
def gasPop : ℕ := 1
def gasLoad : ℕ := 2
def gasStore : ℕ := 2
def gasStateLoad : ℕ := 5
def gasStateStore : ℕ := 10
def gasAdd : ℕ := 3
def gasSub : ℕ := 3
def gasMul : ℕ := 5
def gasDiv : ℕ := 5
def gasMod : ℕ := 5
def gasShift : ℕ := 5
def gasCmp : ℕ := 3
def gasLogic : ℕ := 3
def gasJump : ℕ := 2
def gasCall : ℕ := 10
def gasHashBase : ℕ := 10
def gasHashPer32B : ℕ := 1
def gasToStringBase : ℕ := 10
def gasToStringPer32B : ℕ := 1
def gasMapGet : ℕ := 10
def gasMapSet : ℕ := 20
def gasRequire : ℕ := 5
def gasEmit : ℕ := 8
def gasEmitEvent : ℕ := 20
def gasCallExternal : ℕ := 100
def gasReturn : ℕ := 1
def gasArrayNew : ℕ := 5
def gasArrayGet : ℕ := 5
def gasArraySet : ℕ := 10

/-! ### Randomness -/

/-- First eight bytes of a hash as a number. -/
def hashWord (h : Hash) : ℕ := leValue (h.toList.take 8)

variable (host : ScriptHost) (ctx : ExecutionContext)

def domainRandomness (domain : String) : ℕ :=
  hashWord (host.blake3 (utf8Bytes "EvaporChain_Beacon_Derive" ++ ctx.vrfRandomness.toList ++
    utf8Bytes domain))

def rangeSample (iter : ℕ) : ℕ :=
  hashWord (host.blake3 (utf8Bytes "EvaporChain_RandomRange_Reject_v1" ++
    ctx.vrfRandomness.toList ++ leBytes 4 iter))

/-- Reject samples outside the zone, at most `left` times. -/
def sampleBelow (host : ScriptHost) (ctx : ExecutionContext) (max zone : ℕ) : ℕ → ℕ → ℕ
  | 0, iter => rangeSample host ctx iter % max
  | left + 1, iter =>
    if rangeSample host ctx iter < zone then rangeSample host ctx iter % max
    else sampleBelow host ctx max zone left (iter + 1)

def maxRejectionIters : ℕ := 64

def randomBelow (max : ℕ) : ℕ :=
  sampleBelow host ctx max (u64Max - u64Max % max) maxRejectionIters 0

/-! ### Functions called by name -/

/-- Hash of a byte string inside the machine (FNV-1a). -/
def fnv1a (bytes : Bytes) : ℕ :=
  bytes.foldl (fun h byte => (h ^^^ byte.toNat) * 0x100000001b3 % 2 ^ 64) 0xcbf29ce484222325

/-- Code of the relation of two intervals. -/
def allenRelation (startA endA startB endB : ℕ) : ℕ :=
  if endA < startB then 0
  else if endA = startB then 1
  else if startA > endB then 12
  else if startA = endB then 11
  else
    match compare startA startB, compare endA endB with
    | .lt, .lt => 2
    | .eq, .lt => 3
    | .gt, .lt => 4
    | .gt, .eq => 5
    | .eq, .eq => 6
    | .lt, .eq => 7
    | .lt, .gt => 8
    | .eq, .gt => 9
    | .gt, .gt => 10

def hashInput (host : ScriptHost) : Value → Bytes
  | .str s => utf8Bytes s
  | .u64 n => leBytes 8 n
  | .address a => a.toList
  | v => utf8Bytes (host.debugText v)

/-- Fail unless a function has its number of arguments. -/
def takes (name : String) (argCount expected : ℕ) : VmM Unit :=
  if argCount ≠ expected then runtime (.wrongArgumentCount name) else pure ()

def ceilDiv32 (n : ℕ) : ℕ := (n + 31) / 32

/-- The built-in functions. The zero-argument accessors leave their arguments on the stack. -/
def callBuiltin (host : ScriptHost) (ctx : ExecutionContext) (name : String) (argCount : ℕ) :
    VmM Value :=
  match name with
  | "caller" => pure (.address ctx.caller)
  | "owner"  => pure (.address ctx.owner)
  | "epoch"  => pure (.u64 ctx.epoch)
  | "energy" => pure (.u64 ctx.energy)
  | "balance" => do
    takes name argCount 1
    let _ ← popAddress
    pure (.u64 0)
  | "transfer" => do
    takes name argCount 2
    let amount ← popU64
    let toAddr ← popAddress
    log ("transfer(" ++ toString amount ++ " to 0x" ++ hexEncode toAddr.toList ++ ")")
    pure .null
  | "emit" => do
    takes name argCount 1
    let msg := (← pop).message
    trackMemory msg.utf8ByteSize
    log msg
    pure .null
  | "allen_relation" => do
    takes name argCount 4
    let endB ← popU64
    let startB ← popU64
    let endA ← popU64
    let startA ← popU64
    if startA ≥ endA then runtime (.invalidInterval startA endA)
    if startB ≥ endB then runtime (.invalidInterval startB endB)
    pure (.u64 (allenRelation startA endA startB endB))
  | "emit_event" => do
    if argCount < 2 then runtime (.wrongArgumentCount name)
    let eventName ← popStr
    let data ← pop
    let topics ← popMany (argCount - 2)
    trackMemory (eventName.utf8ByteSize + data.eventBytes + (topics.map (·.eventBytes)).sum)
    log ("event:" ++ eventName)
    emit ⟨eventName, topics, [data]⟩
    pure .null
  | "require" => do
    takes name argCount 2
    let msg ← pop
    let cond ← popBool
    if cond then pure .null else fail (.requireFailed msg.message)
  | "min" => do
    takes name argCount 2
    let b ← popU64
    let a ← popU64
    pure (.u64 (min a b))
  | "max" => do
    takes name argCount 2
    let b ← popU64
    let a ← popU64
    pure (.u64 (max a b))
  | "hash" => do
    takes name argCount 1
    let input := hashInput host (← pop)
    chargeGas (satAdd gasHashBase (satMul (ceilDiv32 input.length) gasHashPer32B))
    pure (.u64 (fnv1a input))
  | "len" => do
    takes name argCount 1
    match ← pop with
    | .str s => pure (.u64 s.utf8ByteSize)
    | .map m => pure (.u64 m.length)
    | .array xs => pure (.u64 xs.length)
    | v => runtime (.lenNotSupported v)
  | "to_string" => do
    takes name argCount 1
    let v ← pop
    chargeGas (satAdd gasToStringBase
      (satMul (ceilDiv32 v.estimatedToStringBytes) gasToStringPer32B))
    pure (.str v.message)
  | "vrf_domain_randomness" => do
    takes name argCount 1
    let domain ← popStr
    pure (.u64 (domainRandomness host ctx domain))
  | "random_range" => do
    takes name argCount 1
    let max ← popU64
    if max = 0 then runtime .randomRangeZero
    pure (.u64 (randomBelow host ctx max))
  | other => runtime (.unknownBuiltin other)

/-! ### Execution of an instruction -/

/-- Two numbers from the stack, the right operand first. -/
def binaryU64 (gas : ℕ) (f : ℕ → ℕ → VmM Value) : VmM Flow := do
  chargeGas gas
  let b ← popU64
  let a ← popU64
  push (← f a b)
  pure .next

def compareU64 (f : ℕ → ℕ → Bool) : VmM Flow :=
  binaryU64 gasCmp fun a b => pure (.bool (f a b))

def shiftU64 (f : ℕ → ℕ → ℕ) : VmM Flow :=
  binaryU64 gasShift fun value shift =>
    if shift ≥ 64 then runtime (.shiftOutOfRange shift) else pure (.u64 (f value shift))

/-- Two truth values from the stack; both operands have been evaluated. -/
def binaryBool (f : Bool → Bool → Bool) : VmM Flow := do
  chargeGas gasLogic
  let b ← popBool
  let a ← popBool
  push (.bool (f a b))
  pure .next

/-- Any two values from the stack. -/
def compareValues (f : Value → Value → Bool) : VmM Flow := do
  chargeGas gasCmp
  let b ← pop
  let a ← pop
  push (.bool (f a b))
  pure .next

/-- Sum of numbers or concatenation of texts. -/
def addValues : Value → Value → VmM Value
  | .u64 x, .u64 y =>
    if x + y > u64Max then runtime .additionOverflow else pure (.u64 (x + y))
  | .str x, .str y => do
    let concatLen := x.utf8ByteSize + y.utf8ByteSize
    chargeGas (3 + concatLen / 32)
    if concatLen > maxStringLen then runtime (.stringTooLarge concatLen)
    trackMemory concatLen
    pure (.str (x ++ y))
  | a, b => runtime (.cannotAdd a b)

def negate : Value → VmM Value
  | .u64 0 => pure (.u64 0)
  | .u64 n => runtime (.cannotNegateInteger n)
  | .bool b => pure (.bool !b)
  | other => runtime (.cannotNegate other)

def checkTarget (length target : ℕ) : VmM Unit :=
  if target ≥ length then runtime (.jumpOutOfBounds target length) else pure ()

/-- Jump from `ip`; backward jumps are counted. -/
def jumpTo (ip target : ℕ) : VmM Flow := do
  if target ≤ ip then countLoop
  pure (.jump target)

def elementAt (elements : List Value) (index : ℕ) : VmM Value :=
  match elements[index]? with
  | some v => pure v
  | none => runtime (.indexOutOfBounds index elements.length)

/-- Change an element of an array. -/
def setElement (elements : List Value) (index : ℕ) (v : Value) : VmM Value :=
  if index ≥ elements.length then runtime (.indexOutOfBounds index elements.length)
  else pure (.array (elements.set index v))

/-- Value of a key in a state field; absent keys read as zero. -/
def readEntry (host : ScriptHost) (key : Value) : Option Value → VmM Value
  | some (.map m) => pure ((Value.mapGet m (key.toMapKey host)).getD (.u64 0))
  | some (.array elements) => do elementAt elements (← asU64 key)
  | _ => pure (.u64 0)

def setEntry (key : String) (v : Value) (m : List (String × Value)) : VmM Value :=
  if (Value.mapGet m key).isNone ∧ m.length ≥ maxMapEntries then runtime .mapEntryLimitExceeded
  else pure (.map (Value.mapInsert key v m))

/-- New content of a state field after an entry is set. -/
def writeEntry (host : ScriptHost) (field : String) (key v : Value) : Option Value → VmM Value
  | none => do
    trackMemory 64
    setEntry (key.toMapKey host) v []
  | some (.map m) => do
    if (Value.mapGet m (key.toMapKey host)).isNone then trackMemory 64
    setEntry (key.toMapKey host) v m
  | some (.array elements) => do setElement elements (← asU64 key) v
  | some _ => runtime (.mapSetOnField field)

/-- One instruction at `ip` of code with the given length. -/
def execOp (host : ScriptHost) (ctx : ExecutionContext) (inLifecycleHook : Bool)
    (length ip : ℕ) : Op → VmM Flow
  | .push v => do
    chargeGas gasPush
    push v
    pure .next
  | .pop => do
    chargeGas gasPop
    let _ ← pop
    pure .next
  | .load name => do
    chargeGas gasLoad
    push ((← load name).getD .null)
    pure .next
  | .store name => do
    chargeGas gasStore
    store name (← pop)
    pure .next
  | .stateLoad field => do
    chargeGas gasStateLoad
    push ((← stateLoad field).getD .null)
    pure .next
  | .stateStore field => do
    chargeGas gasStateStore
    let v ← pop
    let old ← stateLoad field
    let len ← stateLen
    if old.isNone ∧ len ≥ maxStateKeys then runtime .storageLimitExceeded
    stateStore field v
    pure .next
  | .add => do
    chargeGas gasAdd
    let b ← pop
    let a ← pop
    push (← addValues a b)
    pure .next
  | .sub => binaryU64 gasSub fun a b =>
    if a < b then runtime .subtractionUnderflow else pure (.u64 (a - b))
  | .mul => binaryU64 gasMul fun a b =>
    if a * b > u64Max then runtime .multiplicationOverflow else pure (.u64 (a * b))
  | .div => binaryU64 gasDiv fun a b =>
    if b = 0 then runtime .divisionByZero else pure (.u64 (a / b))
  | .mod => binaryU64 gasMod fun a b =>
    if b = 0 then runtime .moduloByZero else pure (.u64 (a % b))
  | .shl => shiftU64 fun value shift => (value <<< shift) % 2 ^ 64
  | .shr => shiftU64 fun value shift => value >>> shift
  | .eq => compareValues fun a b => a = b
  | .neq => compareValues fun a b => a ≠ b
  | .gt => compareU64 fun a b => a > b
  | .lt => compareU64 fun a b => a < b
  | .gte => compareU64 fun a b => a ≥ b
  | .lte => compareU64 fun a b => a ≤ b
  | .and => binaryBool (· && ·)
  | .or => binaryBool (· || ·)
  | .not => do
    chargeGas gasLogic
    let a ← popBool
    push (.bool !a)
    pure .next
  | .neg => do
    chargeGas gasSub
    push (← negate (← pop))
    pure .next
  | .jump target => do
    chargeGas gasJump
    checkTarget length target
    jumpTo ip target
  | .jumpIf target => do
    chargeGas gasJump
    checkTarget length target
    let cond ← popBool
    if cond then jumpTo ip target else pure .next
  | .jumpIfFalse target => do
    chargeGas gasJump
    checkTarget length target
    let cond ← popBool
    if cond then pure .next else jumpTo ip target
  | .call name argCount => do
    chargeGas gasCall
    push (← callBuiltin host ctx name argCount)
    pure .next
  | .arrayNew count => do
    chargeGas gasArrayNew
    if count > maxArraySize then runtime .arraySizeLimitExceeded
    chargeGas count
    trackMemory (count * 16)
    push (.array (← popMany count))
    pure .next
  | .arrayGet => do
    chargeGas gasArrayGet
    let index ← popU64
    match ← pop with
    | .array elements => push (← elementAt elements index)
    | other => runtime (.expectedArray other)
    pure .next
  | .arraySet name => do
    chargeGas gasArraySet
    let index ← popU64
    let v ← pop
    match ← load name with
    | none => runtime (.undefinedVariable name)
    | some (.array elements) => store name (← setElement elements index v)
    | some other => runtime (.expectedArrayFor name other)
    pure .next
  | .mapGet field => do
    chargeGas gasMapGet
    let key ← pop
    push (← readEntry host key (← stateLoad field))
    pure .next
  | .mapSet field => do
    chargeGas gasMapSet
    let v ← pop
    let key ← pop
    stateStore field (← writeEntry host field key v (← stateLoad field))
    pure .next
  | .require => do
    chargeGas gasRequire
    let cond ← popBool
    let msg ← pop
    if cond then pure .next else fail (.requireFailed msg.message)
  | .emit => do
    chargeGas gasEmit
    let msg := (← pop).message
    trackMemory msg.utf8ByteSize
    log msg
    emit ⟨"Log", [], [.str msg]⟩
    pure .next
  | .emitEvent name topicCount => do
    if topicCount > maxEventTopics then runtime (.tooManyTopics topicCount)
    chargeGas (satAdd gasEmitEvent (topicCount + 1))
    let values ← popMany (topicCount + 1)
    trackMemory (name.utf8ByteSize + (values.map (·.eventBytes)).sum)
    log ("event:" ++ name)
    emit ⟨name, values.take topicCount, values.drop topicCount⟩
    pure .next
  | .ret => do
    chargeGas gasReturn
    let v ← popOrNull
    pure (.ret v)
  | .halt => do
    chargeGas gasReturn
    pure (.ret .null)
  | .epochNow => do
    chargeGas gasPush
    push (.u64 ctx.epoch)
    pure .next
  | .blockNum => do
    chargeGas gasPush
    push (.u64 ctx.epoch)
    pure .next
  | .energyOf => do
    chargeGas gasStateLoad
    push (.u64 ctx.energy)
    pure .next
  | .requireEpochRange => do
    chargeGas gasRequire
    let maxEpoch ← popU64
    let minEpoch ← popU64
    if ctx.epoch < minEpoch ∨ ctx.epoch ≥ maxEpoch then
      runtime (.epochOutsideRange ctx.epoch minEpoch maxEpoch)
    pure .next
  | .computeDecay => do
    chargeGas gasMul
    let halfLife ← popU64
    let initialEnergy ← popU64
    let epochsElapsed ← popU64
    push (.u64 (energyAtEpoch initialEnergy halfLife epochsElapsed))
    pure .next
  | .vrfRandomness => do
    chargeGas gasPush
    push (.u64 (hashWord ctx.vrfRandomness))
    pure .next
  | .vrfDomainRandomness => do
    -- the price depends on the length of the domain
    let domain ← popStr
    chargeGas (gasHashBase + gasHashPer32B * ceilDiv32 domain.utf8ByteSize)
    push (.u64 (domainRandomness host ctx domain))
    pure .next
  | .randomRange => do
    chargeGas gasStateLoad
    let max ← popU64
    if max = 0 then runtime .randomRangeZero
    push (.u64 (randomBelow host ctx max))
    pure .next
  | .callExternal argCount => do
    chargeGas gasCallExternal
    if inLifecycleHook then runtime .callInLifecycleHook
    if ctx.callDepth ≥ maxCallDepth then runtime .callDepthExceeded
    let args ← popMany (argCount - 2)
    let method ← popStr
    let contractId ← popU64
    pure (.call contractId method args)

end EvaporChain.Script
