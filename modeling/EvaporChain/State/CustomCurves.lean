import EvaporChain.State.DecayCurves

/-!
# Validated programs

The check of a custom curve looks at the operations one after the other, not at the stack.
-/

namespace EvaporChain

open Core

namespace DecayMachine

/-- Check from `pc` on, with a number of operations left. -/
def validateOps (bytecode : Bytes) : ℕ → ℕ → Except String Unit
  | 0, pc => if bytecode.length ≤ pc then .ok () else .error "too many operations"
  | left + 1, pc =>
    match bytecode[pc]? with
    | none => .ok ()
    | some op =>
      if op = 0x01 then
        if bytecode.length ≤ pc + 8 then .error "PUSH truncated"
        else validateOps bytecode left (pc + 9)
      else if 0x02 ≤ op ∧ op ≤ 0x0A then validateOps bytecode left (pc + 1)
      else .error "unknown opcode"

/-- Height of the stack at the end of a program, where no operation finds too little on it and the
limit is kept. -/
def stackHeight (bytecode : Bytes) : ℕ → ℕ → ℕ → Option ℕ
  | 0, _, height => some height
  | left + 1, pc, height =>
    match bytecode[pc]? with
    | none => some height
    | some op =>
      if maxStack < height then none
      else if op = 0x01 then stackHeight bytecode left (pc + 9) (height + 1)
      else if height < (if op = 0x07 then 1 else 2) then none
      else stackHeight bytecode left (pc + 1)
        (if op = 0x07 then height + 1 else if op = 0x08 then height else height - 1)

variable {bytecode : Bytes} {pc : ℕ} {stack : List ℕ} {op : UInt8}

lemma valid_cases : ∀ op : UInt8, 0x02 ≤ op ∧ op ≤ 0x0A → op = 0x02 ∨ op = 0x03 ∨ op = 0x04 ∨
    op = 0x05 ∨ op = 0x06 ∨ op = 0x07 ∨ op = 0x08 ∨ op = 0x09 ∨ op = 0x0A := by
  decide +kernel

/-- A valid operation is executed exactly if there is enough on the stack. -/
lemma step_of_valid (hop : bytecode[pc]? = some op) (hvalid : 0x02 ≤ op ∧ op ≤ 0x0A) :
    if stack.length < if op = 0x07 then 1 else 2 then step bytecode pc stack = none
    else ∃ stack', step bytecode pc stack = some (pc + 1, stack') ∧ stack'.length =
      if op = 0x07 then stack.length + 1
      else if op = 0x08 then stack.length else stack.length - 1 := by
  rcases valid_cases op hvalid with rfl | rfl | rfl | rfl | rfl | rfl | rfl | rfl | rfl <;>
    rcases stack with _ | ⟨b, _ | ⟨a, rest⟩⟩ <;> simp [step, hop, binary]

lemma isSome_result_iff :
    (if stack.length = 1 then stack.head? else none).isSome ↔ some stack.length = some 1 := by
  rcases stack with _ | ⟨a, _ | ⟨b, rest⟩⟩ <;> simp

/-- Without a word cut off or an unknown operation, only the height of the stack matters. -/
lemma isSome_evaluate_iff {left : ℕ} (h : validateOps bytecode left pc = .ok ()) :
    (evaluate bytecode left pc stack).isSome ↔
      stackHeight bytecode left pc stack.length = some 1 := by
  induction left generalizing pc stack with
  | zero =>
    simp only [validateOps] at h
    split_ifs at h with hpc
    rw [evaluate, if_pos hpc]
    exact isSome_result_iff
  | succ left ih =>
    simp only [validateOps] at h
    simp only [stackHeight]
    cases hop : bytecode[pc]? with
    | none =>
      rw [evaluate, if_pos (List.getElem?_eq_none_iff.mp hop)]
      exact isSome_result_iff
    | some op =>
      obtain ⟨hpc, -⟩ := List.getElem?_eq_some_iff.mp hop
      rw [hop] at h
      rw [evaluate, if_neg (by omega)]
      dsimp only at h ⊢
      by_cases hlimit : maxStack < stack.length
      · simp [hlimit]
      rw [if_neg hlimit, if_neg hlimit]
      split_ifs at h with hpush htruncated hvalid
      · subst hpush
        have hstep : step bytecode pc stack =
            some (pc + 9, leValue ((bytecode.drop (pc + 1)).take 8) :: stack) := by
          simp [step, hop, htruncated]
        rw [if_pos rfl, hstep]
        exact ih h
      · rw [if_neg hpush]
        have hstep := @step_of_valid bytecode pc stack op hop hvalid
        by_cases hshort : stack.length < if op = 0x07 then 1 else 2
        · rw [if_pos hshort] at hstep ⊢
          simp [hstep]
        · rw [if_neg hshort] at hstep ⊢
          obtain ⟨stack', hstep, hlength⟩ := hstep
          rw [hstep, ← hlength]
          exact ih h

end DecayMachine

/-- Check of a program for a custom curve. -/
def validateCustomBytecode (bytecode : Bytes) : Except String Unit :=
  if bytecode = [] then .error "empty bytecode"
  else if 1024 < bytecode.length then .error "bytecode exceeds 1024 bytes"
  else DecayMachine.validateOps bytecode DecayMachine.maxSteps 0

/-- A program that passed the check never fails exactly if the height of its stack, which begins
with energy and time and depends on neither, ends at one. -/
theorem validated_runs_iff (bytecode : Bytes) (h : validateCustomBytecode bytecode = .ok ()) :
    (∀ initialEnergy elapsedEpochs, (evaluateCustom bytecode initialEnergy elapsedEpochs).isSome) ↔
      DecayMachine.stackHeight bytecode DecayMachine.maxSteps 0 2 = some 1 := by
  unfold validateCustomBytecode at h
  split_ifs at h
  have hruns (initialEnergy elapsedEpochs : ℕ) :=
    @DecayMachine.isSome_evaluate_iff bytecode 0 [elapsedEpochs, initialEnergy] _ h
  exact ⟨fun hall => (hruns 0 0).mp (hall 0 0), fun hheight e t => (hruns e t).mpr hheight⟩

theorem validated_runs_sub :
    validateCustomBytecode [0x03] = .ok () ∧ (evaluateCustom [0x03] 100 7).isSome :=
  ⟨by decide, (validated_runs_iff [0x03] (by decide)).mpr (by decide) 100 7⟩

/-- Two additions pass the check and find one word too little. -/
theorem validated_underflow : validateCustomBytecode [0x02, 0x02] = .ok () ∧
    evaluateCustom [0x02, 0x02] 100 1 = none ∧
    computeEnergy (.custom [0x02, 0x02]) 100 1 none = 0 := by
  decide

end EvaporChain
