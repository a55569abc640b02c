import EvaporChain.Core.Codec
import EvaporChain.Execution.Signable

/-!
# Values of scripts

The runtime values of EvaporScript, their texts and the errors of the machine.
-/

namespace EvaporChain.Script

open Core

/-- A runtime value. The entries of a map are kept sorted by key, so that equal maps are equal
lists. -/
inductive Value
  | u64 (n : ℕ)
  | bool (b : Bool)
  | str (s : String)
  | address (a : AccountAddress)
  | map (entries : List (String × Value))
  | array (elements : List Value)
  | null

namespace Value

/-! ### Equality -/

mutual

def beq : Value → Value → Bool
  | .u64 m, .u64 n => m == n
  | .bool a, .bool b => a == b
  | .str s, .str t => s == t
  | .address a, .address b => a == b
  | .map m, .map n => beqEntries m n
  | .array xs, .array ys => beqElements xs ys
  | .null, .null => true
  | _, _ => false

def beqEntries : List (String × Value) → List (String × Value) → Bool
  | [], [] => true
  | (k, v) :: m, (l, w) :: n => k == l && v.beq w && beqEntries m n
  | _, _ => false

def beqElements : List Value → List Value → Bool
  | [], [] => true
  | v :: xs, w :: ys => v.beq w && beqElements xs ys
  | _, _ => false

end

mutual

lemma beq_iff : ∀ v w : Value, v.beq w = true ↔ v = w
  | .map m, .map n => by simp [beq, beqEntries_iff m n]
  | .array xs, .array ys => by simp [beq, beqElements_iff xs ys]
  | .u64 m, w => by cases w <;> simp [beq]
  | .bool a, w => by cases w <;> simp [beq]
  | .str s, w => by cases w <;> simp [beq]
  | .address a, w => by cases w <;> simp [beq]
  | .null, w => by cases w <;> simp [beq]
  | .map m, .u64 _ | .map m, .bool _ | .map m, .str _ | .map m, .address _ | .map m, .array _
  | .map m, .null => by simp [beq]
  | .array m, .u64 _ | .array m, .bool _ | .array m, .str _ | .array m, .address _
  | .array m, .map _ | .array m, .null => by simp [beq]

lemma beqEntries_iff : ∀ m n : List (String × Value), beqEntries m n = true ↔ m = n
  | [], n => by cases n <;> simp [beqEntries]
  | (k, v) :: m, [] => by simp [beqEntries]
  | (k, v) :: m, (l, w) :: n => by simp [beqEntries, beq_iff v w, beqEntries_iff m n]

lemma beqElements_iff : ∀ xs ys : List Value, beqElements xs ys = true ↔ xs = ys
  | [], ys => by cases ys <;> simp [beqElements]
  | v :: xs, [] => by simp [beqElements]
  | v :: xs, w :: ys => by simp [beqElements, beq_iff v w, beqElements_iff xs ys]

end

instance : DecidableEq Value := fun v w => decidable_of_iff (v.beq w = true) (beq_iff v w)

/-! ### Texts -/

mutual

def text : Value → String
  | .u64 n => toString n
  | .bool b    => if b then "true" else "false"
  | .str s => s
  | .address a => "0x" ++ hexEncode a.toList
  | .null      => "null"
  | .map m     => "\x7b" ++ ", ".intercalate (entryTexts m) ++ "\x7d"
  | .array xs  => "[" ++ ", ".intercalate (elementTexts xs) ++ "]"

def entryTexts : List (String × Value) → List String
  | [] => []
  | (k, v) :: m => ("\"" ++ k ++ "\": " ++ v.text) :: entryTexts m

def elementTexts : List Value → List String
  | [] => []
  | v :: xs => v.text :: elementTexts xs

end

mutual

/-- Upper bound of the length of a text, before it is built. -/
def estimatedToStringBytes : Value → ℕ
  | .str s => s.utf8ByteSize
  | .u64 _ => 20
  | .bool _ => 5
  | .address _ => 70
  | .null => 4
  | .map m => satAdd (satAdd (satMul m.length 6) (entryBytes m)) 2
  | .array xs => satAdd (satAdd (satMul xs.length 2) (elementBytes xs)) 2

def entryBytes : List (String × Value) → ℕ
  | [] => 0
  | (k, v) :: m => k.utf8ByteSize + v.estimatedToStringBytes + entryBytes m

def elementBytes : List Value → ℕ
  | [] => 0
  | v :: xs => v.estimatedToStringBytes + elementBytes xs

end

def eventBytes : Value → ℕ
  | .str s => s.utf8ByteSize
  | _ => 8

/-- The message of a value: a text stays as it is. -/
def message : Value → String
  | .str s => s
  | other => other.text

/-! ### Maps -/

def mapGet (m : List (String × Value)) (key : String) : Option Value := m.lookup key

def mapInsert (key : String) (v : Value) : List (String × Value) → List (String × Value)
  | [] => [(key, v)]
  | (k, w) :: m =>
    if key = k then (key, v) :: m
    else if key < k then (key, v) :: (k, w) :: m
    else (k, w) :: mapInsert key v m

end Value

/-- What the machine takes from outside: the hash function and the debugging text of a value, which
the `hash` function of scripts uses. -/
structure ScriptHost where
  blake3 : Bytes → Hash
  debugText : Value → String

/-- Key of a map entry, with a mark for the type. -/
def Value.toMapKey (host : ScriptHost) (v : Value) : String :=
  match v with
  | .u64 _     => "u:" ++ v.text
  | .bool _    => "b:" ++ v.text
  | .str s     => "s:" ++ s
  | .address a => "a:" ++ hexEncode a.toList
  | .null      => "n:null"
  | .map _     => "m:" ++ hexEncode (host.blake3 (utf8Bytes v.text)).toList
  | .array _   => "r:" ++ hexEncode (host.blake3 (utf8Bytes v.text)).toList

/-! ### Errors -/

inductive RuntimeError
  | memoryLimitExceeded (bytes : ℕ)
  | stackOverflow
  | stackUnderflow
  | methodNotFound (method : String)
  | storageLimitExceeded
  | additionOverflow
  | subtractionUnderflow
  | multiplicationOverflow
  | stringTooLarge (bytes : ℕ)
  | cannotAdd (a b : Value)
  | divisionByZero
  | moduloByZero
  | shiftOutOfRange (shift : ℕ)
  | cannotNegateInteger (n : ℕ)
  | cannotNegate (v : Value)
  | jumpOutOfBounds (target length : ℕ)
  | loopLimitExceeded
  | arraySizeLimitExceeded
  | indexOutOfBounds (index length : ℕ)
  | expectedArray (got : Value)
  | undefinedVariable (name : String)
  | expectedArrayFor (name : String) (got : Value)
  | mapSetOnField (field : String)
  | mapEntryLimitExceeded
  | tooManyTopics (topicCount : ℕ)
  | epochOutsideRange (epoch minEpoch maxEpoch : ℕ)
  | randomRangeZero
  | callInLifecycleHook
  | callDepthExceeded
  | callsNotAvailable
  | expectedU64 (got : Value)
  | expectedBool (got : Value)
  | expectedString (got : Value)
  | expectedAddress (got : Value)
  | wrongArgumentCount (function : String)
  | invalidInterval (start stop : ℕ)
  | lenNotSupported (v : Value)
  | unknownBuiltin (name : String)
  | reentrancyDetected (contractId : ℕ)
  | contractNotFound (contractId : ℕ)
  | contractEvaporated (contractId : ℕ)
  | contractNoEnergy (contractId : ℕ)
deriving DecidableEq

/-- Errors of compilation and execution. -/
inductive ScriptError
  | compile (message : String)
  | runtime (message : RuntimeError)
  | gasLimitExceeded (used limit : ℕ)
  | stepLimitExceeded (steps limit : ℕ)
  | requireFailed (message : String)
deriving DecidableEq

structure ContractEvent where
  name : String
  topics : List Value
  data : List Value
deriving DecidableEq

end EvaporChain.Script
