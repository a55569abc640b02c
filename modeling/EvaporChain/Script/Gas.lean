import EvaporChain.Script.Engine
import EvaporChain.Script.Frames

/-!
# Gas bounds a call tree

A nested call gets the gas its caller has left, and what it used is added to the caller's account.
So the opcodes completed by all machines of a call are bounded by the gas of the outermost one. The
step limit and the limit of the depth make every call come to an end.
-/

namespace EvaporChain.Script

open Core EvaporVm Method

variable {σ : Type} {m : Method σ} {vm vm' : EvaporVm} {s : σ} {args : List Value}
  {host : ScriptHost} {fuel : ℕ} {method : String}

lemma EvaporVm.pushArgs_ok (h : vm.pushArgs args = .ok vm') :
    vm' = { vm with stack := args.reverse ++ vm.stack } := by
  induction args generalizing vm with
  | nil =>
    cases h
    rfl
  | cons arg args ih =>
    simp only [pushArgs, List.foldlM_cons] at h
    cases hpush : vm.push arg with
    | error e =>
      rw [hpush] at h
      cases h
    | ok vm₁ =>
      rw [hpush] at h
      rw [ih h, push_ok hpush]
      simp

variable {external : Option (ExternalCaller σ)}

/-- How the run of a method on a new machine can go. -/
lemma executeFullWithSelf_cases {bytecode : EvaporBytecode} {state : ScriptState}
    {ctx : ExecutionContext} {gasLimit : ℕ} {id : ℕ} {result : RunResult σ}
    (h : executeFullWithSelf host fuel bytecode method args state ctx gasLimit external id s =
      some result) :
    (∃ e, result = ⟨.error e, { new state gasLimit with
        executingContractId := id, inLifecycleHook := isLifecycleHook method }, s⟩) ∨
    ∃ offset, bytecode.methods.lookup method = some offset ∧
      (Method.mk host bytecode.opcodes ctx external).loop fuel offset
        { new state gasLimit with
          executingContractId := id, inLifecycleHook := isLifecycleHook method
          stack := args.reverse } s = some result := by
  simp only [executeFullWithSelf, Method.executeMethod] at h
  cases hmethod : bytecode.methods.lookup method with
  | none =>
    rw [hmethod] at h
    cases h
    exact .inl ⟨_, rfl⟩
  | some offset =>
    rw [hmethod] at h
    cases hpush : pushArgs { new state gasLimit with
        executingContractId := id, inLifecycleHook := isLifecycleHook method } args with
    | error e =>
      rw [hpush] at h
      cases h
      exact .inl ⟨_, rfl⟩
    | ok vm =>
      rw [hpush] at h
      have hvm := pushArgs_ok hpush
      rw [hvm] at h
      refine .inr ⟨offset, rfl, ?_⟩
      simpa [new] using h

/-! ### The bound -/

/-- A caller that does not use more gas than it is given, with an account of completed opcodes. -/
structure ExternalCaller.Bounded (ext : ExternalCaller σ) (count : σ → ℕ) : Prop where
  failed : ∀ request s e s', ext request s = some (.error e, s') →
    count s' ≤ count s + request.gasRemaining
  returned : ∀ request s reply s', ext request s = some (.ok reply, s') →
    count s' ≤ count s + reply.gasUsed ∧ reply.gasUsed ≤ request.gasRemaining

/-- Invariant of a run: every completed opcode, here or in a nested call, has been paid for. -/
structure Paid (count : σ → ℕ) (base limit : ℕ) (vm : EvaporVm) (s : σ) : Prop where
  paid : vm.completed + count s ≤ base + vm.gasUsed
  withinLimit : vm.gasUsed ≤ vm.gasLimit
  gasLimit : vm.gasLimit = limit

/-- What holds at the end of a run. -/
def PaidResult (count : σ → ℕ) (base limit : ℕ) (result : RunResult σ) : Prop :=
  result.vm.completed + count result.caller ≤ base + limit ∧
    ∀ v, result.result = .ok v → Paid count base limit result.vm result.caller

section Run

variable {count : σ → ℕ} {base limit : ℕ}

lemma Paid.result (h : Paid count base limit vm s) (r : Except ScriptError Value) :
    PaidResult count base limit ⟨r, vm, s⟩ := by
  refine ⟨?_, fun _ _ => h⟩
  have hpaid := h.paid
  have hwithin := h.withinLimit
  have hlimit := h.gasLimit
  simp only
  omega

lemma Paid.tick (h : Paid count base limit vm s) : Paid count base limit vm.tick s :=
  ⟨h.paid, h.withinLimit, h.gasLimit⟩

/-- An instruction that is charged keeps the invariant, also when it is then completed. -/
lemma Paid.step (h : Paid count base limit vm s) (hframe : EvaporVm.Frame vm vm')
    (hcharged : vm.gasUsed + 1 ≤ vm'.gasUsed) : Paid count base limit vm'.complete s where
  paid := by
    have hpaid := h.paid
    have hcompleted := hframe.completed
    simp only [complete]
    omega
  withinLimit := hframe.withinLimit h.withinLimit
  gasLimit := hframe.gasLimit.trans h.gasLimit

lemma callRound_paid (hext : ∀ ext ∈ m.external, ext.Bounded count) {ip : ℕ} {round : Round σ}
    {id : ℕ} {method : String} {args : List Value} (h : Paid count base limit vm.complete s)
    (hround : m.callRound ip (vm.callRequest m.host m.ctx id method args) vm s = some round) :
    match round with
    | .done result => PaidResult count base limit result
    | .goto _ vm' s' => Paid count base limit vm' s' := by
  have hpaid := h.paid
  have hwithin := h.withinLimit
  have hlimit := h.gasLimit
  have hself : Paid count base limit vm s :=
    ⟨by simp [complete] at hpaid; omega, hwithin, hlimit⟩
  simp only [complete] at hpaid hwithin hlimit
  cases callRound_cases hround with
  | unavailable => exact hself.result _
  | failed hsome hcall =>
    have hcount := (hext _ hsome).failed _ _ _ _ hcall
    simp only [callRequest] at hcount
    exact ⟨by simp only; omega, fun _ h => by cases h⟩
  | rejected hsome hcall hafter =>
    obtain ⟨hcount, hgas⟩ := (hext _ hsome).returned _ _ _ _ hcall
    simp only [callRequest] at hgas
    exact ⟨by simp only; omega, fun _ h => by cases h⟩
  | returned hsome hcall hafter =>
    obtain ⟨hcount, -⟩ := (hext _ hsome).returned _ _ _ _ hcall
    -- the charge for the call instruction itself pays for its completion
    obtain ⟨hle, rfl⟩ := afterCall_ok hafter
    exact ⟨by simp [complete]; omega, hle, hlimit⟩

/-- The invariant holds in every run. -/
lemma loop_paid (hext : ∀ ext ∈ m.external, ext.Bounded count) {fuel ip : ℕ}
    {result : RunResult σ} (h : Paid count base limit vm s)
    (hloop : m.loop fuel ip vm s = some result) : PaidResult count base limit result := by
  refine loop_rule (P := Paid count base limit) ?_ ?_ h hloop
  · intro ip vm s result h hround
    cases round_cases hround with
    | halt => exact h.result _
    | stepLimit | opError => exact h.tick.result _
    | ret hip hlimit hop =>
      exact (h.tick.step (VmM.exec_frame hop) (execOp_charged hop)).result _
    | call hip hlimit hop hcall =>
      exact callRound_paid hext (h.tick.step (VmM.exec_frame hop) (execOp_charged hop)) hcall
  · intro ip vm s ip' vm' s' h hround
    cases round_cases hround with
    | next hip hlimit hop | jump hip hlimit hop =>
      exact h.tick.step (VmM.exec_frame hop) (execOp_charged hop)
    | call hip hlimit hop hcall =>
      exact callRound_paid hext (h.tick.step (VmM.exec_frame hop) (execOp_charged hop)) hcall

/-- A new machine. -/
lemma executeFullWithSelf_paid {host : ScriptHost} {fuel : ℕ} {bytecode : EvaporBytecode}
    {method : String} {args : List Value} {state : ScriptState} {ctx : ExecutionContext}
    {external : Option (ExternalCaller σ)} {id : ℕ} {result : RunResult σ}
    (hext : ∀ ext ∈ external, ext.Bounded count)
    (h : executeFullWithSelf host fuel bytecode method args state ctx limit external id s =
      some result) : PaidResult count (count s) limit result := by
  rcases executeFullWithSelf_cases h with ⟨e, rfl⟩ | ⟨offset, -, hloop⟩
  · exact Paid.result ⟨by simp [new], Nat.zero_le _, rfl⟩ _
  · exact loop_paid hext ⟨by simp [new], Nat.zero_le _, rfl⟩ hloop

end Run

/-! ### Nested calls -/

lemma liveContract_ok {contracts : ℕ → Option ScriptContract} {contractId epoch : ℕ}
    {contract : ScriptContract} (h : liveContract contracts contractId epoch = .ok contract) :
    contracts contractId = some contract := by
  unfold liveContract at h
  split at h
  · cases h
  · rename_i hcontract
    split_ifs at h
    cases h
    exact hcontract

namespace ContractCallRouter

variable {host : ScriptHost} {fuel levels : ℕ} {request : CallRequest}
  {router router' : ContractCallRouter}

/-- How a nested call can go: it is refused, or the method of a contract runs on its clone. -/
lemma callExternal_cases {result : Except ScriptError CallReply}
    (h : callExternal host fuel levels request router = some (result, router')) :
    (∃ e, result = .error e ∧ router' = router) ∨
    ∃ levels' contract run, levels = levels' + 1 ∧
      request.target router.contracts router.activeCalls = .ok contract ∧
      executeFullWithSelf host fuel contract.bytecode request.method request.args contract.state
        ⟨request.caller, contract.creator, request.epoch, contract.energyAt request.epoch,
          router.vrfRandomness, request.callDepth⟩
        request.gasRemaining (some (callExternal host fuel levels')) request.contractId
        (router.enter request.contractId contract.state) = some run ∧
      ((∃ e, run.result = .error e ∧ result = .error e ∧
          router' = run.caller.leave request.contractId request.callDepth run.vm) ∨
        ∃ v, run.result = .ok v ∧ result = .ok ⟨v, run.vm.structuredEvents, run.vm.gasUsed⟩ ∧
          router' = (run.caller.leave request.contractId request.callDepth run.vm).collect
            request.contractId run.vm) := by
  cases levels with
  | zero => cases h
  | succ levels =>
    simp only [callExternal] at h
    cases htarget : request.target router.contracts router.activeCalls with
    | error e =>
      rw [htarget] at h
      cases h
      exact .inl ⟨_, rfl, rfl⟩
    | ok contract =>
      simp only [htarget] at h
      cases hrun : executeFullWithSelf host fuel contract.bytecode request.method request.args
        contract.state ⟨request.caller, contract.creator, request.epoch,
          contract.energyAt request.epoch, router.vrfRandomness, request.callDepth⟩
        request.gasRemaining (some (callExternal host fuel levels)) request.contractId
        (router.enter request.contractId contract.state) with
      | none => simp [hrun] at h
      | some run =>
        refine .inr ⟨levels, contract, run, rfl, rfl, hrun, ?_⟩
        simp only [hrun] at h
        cases hresult : run.result with
        | error e =>
          simp only [hresult] at h
          cases h
          exact .inl ⟨e, rfl, rfl, rfl⟩
        | ok v =>
          simp only [hresult] at h
          cases h
          exact .inr ⟨v, rfl, rfl, rfl⟩

/-- Nested calls keep to their gas. -/
lemma callExternal_bounded (levels : ℕ) :
    (callExternal host fuel levels).Bounded fun router => router.trace.completed := by
  induction levels with
  | zero =>
    constructor
    · intro request router e router' h
      cases h
    · intro request router reply router' h
      cases h
  | succ levels ih =>
    have hrun {request : CallRequest} {router : ContractCallRouter} {contract : ScriptContract}
        {ctx : ExecutionContext} {run : RunResult ContractCallRouter}
        (h : executeFullWithSelf host fuel contract.bytecode request.method request.args
          contract.state ctx request.gasRemaining (some (callExternal host fuel levels))
          request.contractId (router.enter request.contractId contract.state) = some run) :=
      executeFullWithSelf_paid (fun ext hext => Option.some.inj hext ▸ ih) h
    constructor
    · intro request router e router' h
      rcases callExternal_cases h with ⟨_, -, rfl⟩ | ⟨levels', contract, run, hlevels, -, hexec,
        ⟨_, -, -, rfl⟩ | ⟨_, -, herror, -⟩⟩
      · exact Nat.le_add_right ..
      · obtain rfl := Nat.succ.inj hlevels
        have hpaid := (hrun hexec).1
        simp only [enter] at hpaid
        simp only [leave, CallTrace.add]
        omega
      · cases herror
    · intro request router reply router' h
      rcases callExternal_cases h with ⟨_, herror, -⟩ | ⟨levels', contract, run, hlevels, -,
        hexec, ⟨_, -, herror, -⟩ | ⟨v, hv, hreply, rfl⟩⟩
      · cases herror
      · cases herror
      · obtain rfl := Nat.succ.inj hlevels
        cases hreply
        obtain ⟨hpaid, hwithin, hlimit⟩ := (hrun hexec).2 v hv
        simp only [enter] at hpaid
        simp only [collect, leave, CallTrace.add]
        omega

end ContractCallRouter

/-- A successful call. -/
lemma ScriptEngine.callWithVmGas_ok {engine : ScriptEngine} {contractId currentEpoch vmGasLimit : ℕ}
    {caller : AccountAddress} {outcome : CallOutcome} {result : ScriptCallResult}
    (h : engine.callWithVmGas host fuel contractId method args caller currentEpoch vmGasLimit =
      some outcome) (hok : outcome.result = .ok result) :
    ∃ (contract : ScriptContract) (run : _) (v : _),
      executeFullWithSelf host fuel contract.bytecode method args contract.state
        ⟨caller, contract.creator, currentEpoch, contract.energyAt currentEpoch,
          engine.vrfRandomness, 0⟩ vmGasLimit
        (some (ContractCallRouter.callExternal host fuel fuel)) contractId
        { ContractCallRouter.fromEngine engine with activeCalls := insert contractId ∅ } =
          some run ∧
      run.result = .ok v ∧
      result = ⟨v, run.vm.events, run.vm.structuredEvents ++ run.caller.collectedEvents,
        run.vm.gasUsed, run.vm.state⟩ ∧
      outcome.trace = run.caller.trace.add 0 run.vm := by
  unfold callWithVmGas at h
  cases hlive : liveContract engine.contracts contractId currentEpoch with
  | error e =>
    rw [hlive] at h
    cases h
    cases hok
  | ok contract =>
    simp only [hlive] at h
    split at h
    · cases h
    · rename_i result' vm router hrun
      cases result' with
      | error e =>
        cases h
        cases hok
      | ok v =>
        cases h
        cases hok
        exact ⟨contract, ⟨.ok v, vm, router⟩, v, hrun, rfl, rfl, rfl⟩

/-! ### Termination -/

section Termination

variable (hext : ∀ ext ∈ m.external, ∀ request s,
  request.callDepth = m.ctx.callDepth + 1 → (ext request s).isSome)

include hext

lemma callRound_isSome {ip : ℕ} {request : CallRequest}
    (hdepth : request.callDepth = m.ctx.callDepth + 1) : (m.callRound ip request vm s).isSome := by
  unfold Method.callRound
  split
  · rfl
  · rename_i ext hsome
    obtain ⟨⟨result, s'⟩, hcall⟩ := Option.isSome_iff_exists.mp (hext ext hsome request s hdepth)
    simp only [hcall]
    split
    · contradiction
    · rfl
    · split <;> rfl

lemma round_isSome {ip : ℕ} : (m.round ip vm s).isSome := by
  unfold Method.round
  split
  · rfl
  · split_ifs
    · rfl
    · split
      · rfl
      · rfl
      · rfl
      · rfl
      · exact callRound_isSome hext rfl

/-- A run ends if its nested calls do. -/
lemma loop_isSome {fuel ip : ℕ} (hsteps : vm.stepCount ≤ maxSteps)
    (hfuel : maxSteps < fuel + vm.stepCount) : (m.loop fuel ip vm s).isSome := by
  induction fuel generalizing ip vm s with
  | zero => omega
  | succ fuel ih =>
    obtain ⟨round, hround⟩ : ∃ round, m.round ip vm s = some round :=
      Option.isSome_iff_exists.mp (round_isSome hext)
    simp only [Method.loop, hround]
    cases round with
    | done result => rfl
    | goto ip' vm' s' =>
      have hnext : vm'.stepCount = vm.stepCount + 1 ∧ vm.stepCount + 1 ≤ maxSteps := by
        cases round_cases hround with
        | next hip hlimit hop | jump hip hlimit hop =>
          exact ⟨(VmM.exec_frame hop).stepCount, hlimit⟩
        | call hip hlimit hop hcall =>
          cases callRound_cases hcall with
          | returned hsome hcall hafter =>
            obtain ⟨-, rfl⟩ := afterCall_ok hafter
            exact ⟨(VmM.exec_frame hop).stepCount, hlimit⟩
      exact ih (by omega) (by omega)

end Termination

lemma executeFullWithSelf_isSome {bytecode : EvaporBytecode} {state : ScriptState}
    {ctx : ExecutionContext} {gasLimit : ℕ} {id : ℕ} (hext : ∀ ext ∈ external, ∀ request s,
      request.callDepth = ctx.callDepth + 1 → (ext request s).isSome) (hfuel : maxSteps < fuel) :
    (executeFullWithSelf host fuel bytecode method args state ctx gasLimit external id
      s).isSome := by
  simp only [executeFullWithSelf, Method.executeMethod]
  split
  · rfl
  · split
    · rfl
    · rename_i vm hpush
      apply loop_isSome hext
      · rw [pushArgs_ok hpush]
        exact Nat.zero_le _
      · omega

/-- Calls may be nested as deep as the limit allows. -/
lemma ContractCallRouter.callExternal_isSome {levels : ℕ} {request : CallRequest}
    {router : ContractCallRouter} (hfuel : maxSteps < fuel)
    (hdepth : request.callDepth ≤ maxCallDepth)
    (hlevels : maxCallDepth < levels + request.callDepth) :
    (callExternal host fuel levels request router).isSome := by
  induction levels generalizing request router with
  | zero => omega
  | succ levels ih =>
    simp only [callExternal]
    split
    · rfl
    · rename_i htarget
      have hlimit : request.callDepth < maxCallDepth := by
        by_contra hge
        rw [CallRequest.target, if_pos (not_lt.mp hge)] at htarget
        cases htarget
      split
      · rename_i hnone
        refine absurd hnone (Option.isSome_iff_ne_none.mp
          (executeFullWithSelf_isSome (fun ext hext request' s' hdepth' => ?_) hfuel))
        cases hext
        simp only at hdepth'
        exact ih (by omega) (by omega)
      · split <;> rfl

/-! ### The whole call -/

/-- A call with a gas budget ends, completes at most as many opcodes in all its machines together as
the budget allows, and reports a use of gas between the two. -/
theorem callWithVmGas_bounded (engine : ScriptEngine) (host : ScriptHost) (contractId : ℕ)
    (method : String) (args : List Value) (caller : AccountAddress) (currentEpoch vmGasLimit : ℕ)
    (fuel : ℕ) (hfuel : maxSteps < fuel) :
    ∃ outcome, engine.callWithVmGas host fuel contractId method args caller
      currentEpoch vmGasLimit =
        some outcome ∧
      outcome.trace.completed ≤ vmGasLimit ∧
      ∀ result, outcome.result = .ok result →
        result.gasUsed ≤ vmGasLimit ∧ outcome.trace.completed ≤ result.gasUsed := by
  unfold ScriptEngine.callWithVmGas
  split
  · exact ⟨_, rfl, Nat.zero_le _, fun _ h => by cases h⟩
  · simp only
    split
    · rename_i hnone
      refine absurd hnone (Option.isSome_iff_ne_none.mp
        (executeFullWithSelf_isSome (fun ext hext request s hdepth => ?_) hfuel))
      cases hext
      have hlarge : maxCallDepth ≤ maxSteps := by decide
      simp only at hdepth
      exact ContractCallRouter.callExternal_isSome hfuel (by rw [hdepth]; decide) (by omega)
    · rename_i result vm router hrun
      have hbounded : PaidResult (fun r : ContractCallRouter => r.trace.completed) 0 vmGasLimit
          ⟨result, vm, router⟩ :=
        executeFullWithSelf_paid (fun ext hext => Option.some.inj hext ▸
          ContractCallRouter.callExternal_bounded fuel) hrun
      obtain ⟨hle, hok⟩ := hbounded
      simp only at hle hok
      cases result with
      | error e =>
        refine ⟨_, rfl, ?_, fun _ h => by cases h⟩
        simp only [CallTrace.add]
        omega
      | ok v =>
        obtain ⟨hpaid, hwithin, hlimit⟩ := hok v rfl
        refine ⟨_, rfl, ?_, fun _ h => ?_⟩
        · simp only [CallTrace.add]
          omega
        · cases h
          simp only [CallTrace.add]
          omega

/-- Contract 1 calls contract 2, which returns 5. -/
def nestedEngine : ScriptEngine :=
  engineOf [contractOf [.push (.u64 2), .push (.str "run"), .callExternal 2, .ret] ∅,
    contractOf [.push (.u64 5), .ret] ∅]

theorem callWithVmGas_bounded_nested :
    ∃ outcome, nestedEngine.callWithVmGas plainHost (maxSteps + 1) 1 "run" [] Hash.zero 0 200 =
        some outcome ∧
      outcome.trace.completed ≤ 200 ∧
      ∀ result, outcome.result = .ok result →
        result.gasUsed ≤ 200 ∧ outcome.trace.completed ≤ result.gasUsed :=
  callWithVmGas_bounded nestedEngine plainHost 1 "run" [] Hash.zero 0 200 (maxSteps + 1)
    (lt_add_one _)

/-- Six opcodes are completed for 105 units of gas. -/
example : ((nestedEngine.callWithVmGas plainHost 9 1 "run" [] Hash.zero 0 200).map fun outcome =>
    (outcome.trace.completed, outcome.result.toOption.map fun r => (r.returnValue, r.gasUsed))) =
      some (6, some (.u64 5, 105)) := by decide +kernel

end EvaporChain.Script
