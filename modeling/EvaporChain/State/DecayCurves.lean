import EvaporChain.Execution.Ledger

/-!
# Decay curves

How much of its energy an object has left after some epochs: by halving, at a constant rate, in
steps, with a time of grace after an access, towards a floor, or by a program for a small stack
machine.
-/

namespace EvaporChain

open Core

/-! ### The machine of custom curves -/

namespace DecayMachine

def maxSteps : ℕ := 256

def maxStack : ℕ := 32

/-- What an operation makes of the two topmost words, of which the top is the second. -/
def binary : UInt8 → Option (ℕ → ℕ → ℕ)
  | 0x02 => some satAdd
  | 0x03 => some fun a b => a - b
  | 0x04 => some satMul
  | 0x05 => some fun a b => if b = 0 then 0 else a / b
  | 0x06 => some fun a b => if 64 ≤ b then 0 else a >>> b
  | 0x09 => some min
  | 0x0A => some max
  | _ => none

/-- One operation at `pc`, with the next position and the stack it leaves, the top first. -/
def step (bytecode : Bytes) (pc : ℕ) (stack : List ℕ) : Option (ℕ × List ℕ) :=
  match bytecode[pc]?, stack with
  | some 0x01, stack =>
    if bytecode.length ≤ pc + 8 then none
    else some (pc + 9, leValue ((bytecode.drop (pc + 1)).take 8) :: stack)
  | some 0x07, a :: stack => some (pc + 1, a :: a :: stack)
  | some 0x08, b :: a :: rest => some (pc + 1, a :: b :: rest)
  | some op, b :: a :: rest => (binary op).map fun f => (pc + 1, f a b :: rest)
  | _, _ => none

/-- Run the program from `pc`. At its end one word has to be left. -/
def evaluate (bytecode : Bytes) : ℕ → ℕ → List ℕ → Option ℕ
  | 0, pc, stack =>
    if bytecode.length ≤ pc then (if stack.length = 1 then stack.head? else none) else none
  | steps + 1, pc, stack =>
    if bytecode.length ≤ pc then (if stack.length = 1 then stack.head? else none)
    else if maxStack < stack.length then none
    else (step bytecode pc stack).bind fun next => evaluate bytecode steps next.1 next.2

end DecayMachine

def evaluateCustom (bytecode : Bytes) (initialEnergy elapsedEpochs : ℕ) : Option ℕ :=
  DecayMachine.evaluate bytecode DecayMachine.maxSteps 0 [elapsedEpochs, initialEnergy]

/-! ### Energy -/

/-- The level of the last threshold before the first that was not reached. -/
def steppedEnergy (elapsedEpochs : ℕ) : List (ℕ × ℕ) → ℕ → ℕ
  | [], energy => energy
  | (threshold, level) :: thresholds, energy =>
    if threshold ≤ elapsedEpochs then steppedEnergy elapsedEpochs thresholds level else energy

/-- The epochs that count after an access. The access is an epoch, the time elapsed a difference of
epochs; they are subtracted all the same. -/
def effectiveElapsed (elapsedEpochs graceEpochs : ℕ) : Option ℕ → ℕ
  | none => elapsedEpochs
  | some lastAccess =>
    let idle := elapsedEpochs - lastAccess
    if idle ≤ graceEpochs then elapsedEpochs - (graceEpochs - idle) else elapsedEpochs

/-- Energy left on a curve. A program that fails leaves none. -/
def computeEnergy : DecayCurve → ℕ → ℕ → Option ℕ → ℕ
  | curve, initialEnergy, elapsedEpochs, lastAccessEpoch =>
    if initialEnergy = 0 ∨ elapsedEpochs = 0 then initialEnergy
    else match curve with
      | .exponential halfLife => energyAtEpoch initialEnergy halfLife elapsedEpochs
      | .linear ratePerEpoch => initialEnergy - ratePerEpoch * elapsedEpochs
      | .stepped thresholds => steppedEnergy elapsedEpochs thresholds initialEnergy
      | .conditional base graceEpochs =>
        computeEnergy base initialEnergy
          (effectiveElapsed elapsedEpochs graceEpochs lastAccessEpoch) none
      | .asymptotic floor halfLife =>
        if initialEnergy ≤ floor then initialEnergy
        else satAdd floor (energyAtEpoch (initialEnergy - floor) halfLife elapsedEpochs)
      | .custom bytecode => (evaluateCustom bytecode initialEnergy elapsedEpochs).getD 0

end EvaporChain
