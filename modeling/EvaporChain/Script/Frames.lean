import EvaporChain.Script.Execution

/-!
# What an instruction keeps

Every command, and so every instruction, keeps the limit and the identity of a machine, never gives
gas back and never removes a state field. An instruction that completes has been charged.
-/

namespace EvaporChain.Script

open Core

variable {α σ : Type} {vm vm' vm'' : EvaporVm}

/-- What running a routine keeps. -/
structure EvaporVm.Frame (vm vm' : EvaporVm) : Prop where
  gasLimit : vm'.gasLimit = vm.gasLimit
  gasUsed : vm.gasUsed ≤ vm'.gasUsed
  withinLimit : vm.gasUsed ≤ vm.gasLimit → vm'.gasUsed ≤ vm'.gasLimit
  stepCount : vm'.stepCount = vm.stepCount
  completed : vm'.completed = vm.completed
  inLifecycleHook : vm'.inLifecycleHook = vm.inLifecycleHook
  executingContractId : vm'.executingContractId = vm.executingContractId
  fields : ∀ field ∈ vm.state, field ∈ vm'.state

namespace EvaporVm

lemma Frame.refl (vm : EvaporVm) : Frame vm vm :=
  ⟨rfl, le_rfl, id, rfl, rfl, rfl, rfl, fun _ h => h⟩

lemma Frame.trans (h : Frame vm vm') (h' : Frame vm' vm'') : Frame vm vm'' where
  gasLimit := h'.gasLimit.trans h.gasLimit
  gasUsed := h.gasUsed.trans h'.gasUsed
  withinLimit hle := h'.withinLimit (h.withinLimit hle)
  stepCount := h'.stepCount.trans h.stepCount
  completed := h'.completed.trans h.completed
  inLifecycleHook := h'.inLifecycleHook.trans h.inLifecycleHook
  executingContractId := h'.executingContractId.trans h.executingContractId
  fields field hfield := h'.fields field (h.fields field hfield)

lemma chargeGas_ok {cost : ℕ} (h : vm.chargeGas cost = .ok vm') :
    vm.gasUsed + cost ≤ vm.gasLimit ∧ vm' = { vm with gasUsed := vm.gasUsed + cost } := by
  simp only [chargeGas] at h
  split_ifs at h with hmax hlimit
  cases h
  exact ⟨by omega, rfl⟩

lemma trackMemory_ok {bytes : ℕ} (h : vm.trackMemory bytes = .ok vm') :
    vm' = { vm with memoryUsed := satAdd vm.memoryUsed bytes } := by
  simp only [trackMemory] at h
  split_ifs at h
  cases h
  rfl

lemma push_ok {v : Value} (h : vm.push v = .ok vm') : vm' = { vm with stack := v :: vm.stack } := by
  simp only [push] at h
  split_ifs at h
  cases h
  rfl

lemma pop_ok {v : Value} (h : vm.pop = .ok (v, vm')) :
    ∃ stack, vm.stack = v :: stack ∧ vm' = { vm with stack } := by
  cases hstack : vm.stack with
  | nil => simp [pop, hstack] at h
  | cons w stack =>
    simp only [pop, hstack] at h
    obtain ⟨rfl, rfl⟩ := h
    exact ⟨stack, rfl, rfl⟩

lemma countLoop_ok (h : vm.countLoop = .ok vm') :
    vm' = { vm with loopCounter := vm.loopCounter + 1 } := by
  simp only [countLoop] at h
  split_ifs at h
  cases h
  rfl

/-- A command that answers nothing. -/
lemma of_map_ok {x : Except ScriptError EvaporVm}
    {r : Unit} (h : x.map (fun vm => ((), vm)) = .ok (r, vm')) : x = .ok vm' := by
  cases x with
  | error e => cases h
  | ok vm =>
    cases h
    rfl

lemma handle_frame {c : Cmd} {r : c.Answer} (h : vm.handle c = .ok (r, vm')) : Frame vm vm' := by
  cases c with
  | fail error => cases h
  | charge cost =>
    obtain ⟨hle, rfl⟩ := chargeGas_ok (of_map_ok h)
    exact ⟨rfl, Nat.le_add_right .., fun _ => hle, rfl, rfl, rfl, rfl, fun _ h => h⟩
  | track bytes =>
    rw [trackMemory_ok (of_map_ok h)]
    exact ⟨rfl, le_rfl, id, rfl, rfl, rfl, rfl, fun _ h => h⟩
  | push v =>
    rw [push_ok (of_map_ok h)]
    exact ⟨rfl, le_rfl, id, rfl, rfl, rfl, rfl, fun _ h => h⟩
  | pop =>
    obtain ⟨stack, -, rfl⟩ := pop_ok h
    exact ⟨rfl, le_rfl, id, rfl, rfl, rfl, rfl, fun _ h => h⟩
  | popOrNull =>
    simp only [handle] at h
    split at h <;> cases h <;> exact ⟨rfl, le_rfl, id, rfl, rfl, rfl, rfl, fun _ h => h⟩
  | countLoop =>
    rw [countLoop_ok (of_map_ok h)]
    exact ⟨rfl, le_rfl, id, rfl, rfl, rfl, rfl, fun _ h => h⟩
  | stateStore field v =>
    cases h
    exact ⟨rfl, le_rfl, id, rfl, rfl, rfl, rfl,
      fun field' hfield' => (Finmap.mem_insert).mpr (.inr hfield')⟩
  | load name | store name v | stateLoad field | stateLen | log message | emit event =>
    cases h
    exact ⟨rfl, le_rfl, id, rfl, rfl, rfl, rfl, fun _ h => h⟩

end EvaporVm

lemma VmM.exec_frame {p : VmM α} {a : α} (h : p.exec vm = .ok (a, vm')) :
    EvaporVm.Frame vm vm' := by
  have hstep : ∀ (c : Cmd) (s : EvaporVm) (r : c.Answer) (s' : EvaporVm),
      EvaporVm.handle c s = .ok (r, s') → EvaporVm.Frame s s' :=
    fun _ _ _ _ => EvaporVm.handle_frame
  exact Routine.run_relates EvaporVm.Frame.refl (fun _ _ _ => EvaporVm.Frame.trans) hstep h

/-! ### Every instruction is charged -/

/-- A routine that charges first. -/
lemma charged_of_charge {cost : ℕ} (hcost : 1 ≤ cost) {f : Unit → VmM α} {a : α}
    (h : (VmM.chargeGas cost >>= f).exec vm = .ok (a, vm')) : vm.gasUsed + 1 ≤ vm'.gasUsed := by
  obtain ⟨r, vm₁, hcharge, hrest⟩ := VmM.exec_bind_ok h
  rw [VmM.exec_chargeGas] at hcharge
  obtain ⟨-, rfl⟩ := EvaporVm.chargeGas_ok (EvaporVm.of_map_ok hcharge)
  have hle := (VmM.exec_frame hrest).gasUsed
  simp only at hle
  omega

/-- A completed instruction has cost gas. -/
lemma execOp_charged {host : ScriptHost} {ctx : ExecutionContext} {hook : Bool} {length ip : ℕ}
    {op : Op} {flow : Flow} (h : (execOp host ctx hook length ip op).exec vm = .ok (flow, vm')) :
    vm.gasUsed + 1 ≤ vm'.gasUsed := by
  cases op with
  | vrfDomainRandomness =>
    obtain ⟨domain, vm₁, hp, hrest⟩ := VmM.exec_bind_ok h
    have hle := (VmM.exec_frame hp).gasUsed
    have hlt := charged_of_charge (by simp [gasHashBase]; omega) hrest
    omega
  | emitEvent name topicCount =>
    simp only [execOp] at h
    split_ifs at h
    · cases h
    · exact charged_of_charge (by simp [satAdd, u64Max]; omega) h
  | _ => exact charged_of_charge (by decide) h

/-- A nested call that has returned: its gas is added to the account, its events to the list, and
its value is pushed. -/
lemma EvaporVm.afterCall_ok {reply : CallReply} (h : vm.afterCall reply = .ok vm') :
    vm.gasUsed + reply.gasUsed ≤ vm.gasLimit ∧
    vm' = { vm with
      gasUsed := vm.gasUsed + reply.gasUsed
      structuredEvents := vm.structuredEvents ++ reply.events
      stack := reply.returnVal :: vm.stack } := by
  unfold afterCall at h
  cases hcharge : vm.chargeGas reply.gasUsed with
  | error e =>
    rw [hcharge] at h
    cases h
  | ok vm₁ =>
    rw [hcharge] at h
    obtain ⟨hle, rfl⟩ := chargeGas_ok hcharge
    exact ⟨hle, push_ok h⟩

/-! ### Rounds and runs -/

variable {m : Method σ} {ip : ℕ} {s : σ}

/-- How a round can go. -/
inductive Method.RoundCase (m : Method σ) (ip : ℕ) (vm : EvaporVm) (s : σ) : Round σ → Prop
  | halt (hip : m.opcodes[ip]? = none) : RoundCase m ip vm s (.done ⟨.ok .null, vm, s⟩)
  | stepLimit {op} (hip : m.opcodes[ip]? = some op) (hlimit : vm.tick.stepCount > maxSteps) :
    RoundCase m ip vm s
      (.done ⟨.error (.stepLimitExceeded vm.tick.stepCount maxSteps), vm.tick, s⟩)
  | opError {op e} (hip : m.opcodes[ip]? = some op) (hlimit : vm.tick.stepCount ≤ maxSteps)
    (hop : (execOp m.host m.ctx vm.inLifecycleHook m.opcodes.length ip op).exec vm.tick =
      .error e) : RoundCase m ip vm s (.done ⟨.error e, vm.tick, s⟩)
  | next {op vm'} (hip : m.opcodes[ip]? = some op) (hlimit : vm.tick.stepCount ≤ maxSteps)
    (hop : (execOp m.host m.ctx vm.inLifecycleHook m.opcodes.length ip op).exec vm.tick =
      .ok (.next, vm')) : RoundCase m ip vm s (.goto (ip + 1) vm'.complete s)
  | jump {op target vm'} (hip : m.opcodes[ip]? = some op)
    (hlimit : vm.tick.stepCount ≤ maxSteps)
    (hop : (execOp m.host m.ctx vm.inLifecycleHook m.opcodes.length ip op).exec vm.tick =
      .ok (.jump target, vm')) : RoundCase m ip vm s (.goto target vm'.complete s)
  | ret {op v vm'} (hip : m.opcodes[ip]? = some op) (hlimit : vm.tick.stepCount ≤ maxSteps)
    (hop : (execOp m.host m.ctx vm.inLifecycleHook m.opcodes.length ip op).exec vm.tick =
      .ok (.ret v, vm')) : RoundCase m ip vm s (.done ⟨.ok v, vm'.complete, s⟩)
  | call {op id method args vm' round} (hip : m.opcodes[ip]? = some op)
    (hlimit : vm.tick.stepCount ≤ maxSteps)
    (hop : (execOp m.host m.ctx vm.inLifecycleHook m.opcodes.length ip op).exec vm.tick =
      .ok (.call id method args, vm'))
    (hcall : m.callRound ip (vm'.callRequest m.host m.ctx id method args) vm' s = some round) :
    RoundCase m ip vm s round

lemma Method.round_cases {round : Round σ} (h : m.round ip vm s = some round) :
    m.RoundCase ip vm s round := by
  unfold Method.round at h
  cases hip : m.opcodes[ip]? with
  | none =>
    simp only [hip, Option.some.injEq] at h
    exact h ▸ .halt hip
  | some op =>
    simp only [hip] at h
    split_ifs at h with hlimit
    · exact Option.some.inj h ▸ .stepLimit hip hlimit
    · have hle : vm.tick.stepCount ≤ maxSteps := not_lt.mp hlimit
      cases hop : (execOp m.host m.ctx vm.inLifecycleHook m.opcodes.length ip op).exec vm.tick with
      | error e =>
        simp only [hop, Option.some.injEq] at h
        exact h ▸ .opError hip hle hop
      | ok x =>
        obtain ⟨flow, vm'⟩ := x
        simp only [hop] at h
        cases flow with
        | next => exact Option.some.inj h ▸ .next hip hle hop
        | jump target => exact Option.some.inj h ▸ .jump hip hle hop
        | ret v => exact Option.some.inj h ▸ .ret hip hle hop
        | call id method args => exact .call hip hle hop h

lemma Method.RoundCase.round {round : Round σ} (h : m.RoundCase ip vm s round) :
    m.round ip vm s = some round := by
  unfold Method.round
  cases h with
  | halt hip => simp only [hip]
  | stepLimit hip hlimit => simp only [hip, if_pos hlimit]
  | opError hip hlimit hop | next hip hlimit hop | jump hip hlimit hop | ret hip hlimit hop =>
    simp [hip, if_neg (not_lt.mpr hlimit), hop]
  | call hip hlimit hop hcall => simp only [hip, if_neg (not_lt.mpr hlimit), hop, hcall]

/-- How a call of another contract can go. -/
inductive Method.CallCase (m : Method σ) (ip : ℕ) (request : CallRequest) (vm : EvaporVm) (s : σ) :
    Round σ → Prop
  | unavailable (hext : m.external = none) :
    CallCase m ip request vm s (.done ⟨.error (.runtime .callsNotAvailable), vm, s⟩)
  | failed {ext e s'} (hext : m.external = some ext)
    (hcall : ext request s = some (.error e, s')) :
    CallCase m ip request vm s (.done ⟨.error e, vm, s'⟩)
  | rejected {ext reply s' e} (hext : m.external = some ext)
    (hcall : ext request s = some (.ok reply, s'))
    (hafter : vm.afterCall reply = .error e) :
    CallCase m ip request vm s (.done ⟨.error e, vm, s'⟩)
  | returned {ext reply s' vm'} (hext : m.external = some ext)
    (hcall : ext request s = some (.ok reply, s'))
    (hafter : vm.afterCall reply = .ok vm') :
    CallCase m ip request vm s (.goto (ip + 1) vm'.complete s')

lemma Method.callRound_cases {request : CallRequest} {round : Round σ}
    (h : m.callRound ip request vm s = some round) : m.CallCase ip request vm s round := by
  unfold Method.callRound at h
  cases hext : m.external with
  | none =>
    simp only [hext, Option.some.injEq] at h
    exact h ▸ .unavailable hext
  | some ext =>
    simp only [hext] at h
    cases hcall : ext request s with
    | none => simp [hcall] at h
    | some x =>
      obtain ⟨result, s'⟩ := x
      simp only [hcall] at h
      cases result with
      | error e => exact Option.some.inj h ▸ .failed hext hcall
      | ok reply =>
        cases hafter : vm.afterCall reply with
        | error e =>
          simp only [hafter, Option.some.injEq] at h
          exact h ▸ .rejected hext hcall hafter
        | ok y =>
          simp only [hafter, Option.some.injEq] at h
          exact h ▸ .returned hext hcall hafter

lemma Method.CallCase.callRound {request : CallRequest} {round : Round σ}
    (h : m.CallCase ip request vm s round) : m.callRound ip request vm s = some round := by
  unfold Method.callRound
  cases h with
  | unavailable hext => simp only [hext]
  | failed hext hcall => simp only [hext, hcall]
  | rejected hext hcall hafter | returned hext hcall hafter => simp only [hext, hcall, hafter]

/-- What one round keeps, a run keeps. -/
theorem Method.loop_rule {P : EvaporVm → σ → Prop} {Q : RunResult σ → Prop}
    (hdone : ∀ ip vm s result, P vm s → m.round ip vm s = some (.done result) → Q result)
    (hgoto : ∀ ip vm s ip' vm' s', P vm s → m.round ip vm s = some (.goto ip' vm' s') → P vm' s')
    {fuel : ℕ} {result : RunResult σ} (hP : P vm s) (h : m.loop fuel ip vm s = some result) :
    Q result := by
  induction fuel generalizing ip vm s with
  | zero => cases h
  | succ fuel ih =>
    simp only [Method.loop] at h
    cases hround : m.round ip vm s with
    | none => simp [hround] at h
    | some round =>
      simp only [hround] at h
      cases round with
      | done result' =>
        cases h
        exact hdone ip vm s result hP hround
      | goto ip' vm' s' => exact ih (hgoto ip vm s ip' vm' s' hP hround) h

end EvaporChain.Script
