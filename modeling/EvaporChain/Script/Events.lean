import EvaporChain.Script.Gas

/-!
# Reported events

The events of a nested call go two ways: into the list of the calling machine and into the list of
the router. At the end both lists are joined, so an event is reported once more than the depth at
which it was emitted.
-/

namespace EvaporChain.Script

open Core ContractCallRouter Multiset

/-! ### Copies -/

/-- Each event as often as it was emitted deeper than `depth`. -/
def copies (depth : ℕ) (log : List (ℕ × ContractEvent)) : Multiset ContractEvent :=
  (log.map fun x => Multiset.replicate (x.1 - depth) x.2).sum

/-- Each event once. -/
def occurrences (log : List (ℕ × ContractEvent)) : Multiset ContractEvent := log.map Prod.snd

section Copies

variable {depth : ℕ} {log log' : List (ℕ × ContractEvent)}

@[simp] lemma copies_nil : copies depth [] = 0 := rfl

@[simp] lemma copies_append :
    copies depth (log ++ log') = copies depth log + copies depth log' := by
  simp [copies]

@[simp] lemma occurrences_append :
    occurrences (log ++ log') = occurrences log + occurrences log' := by
  simp [occurrences]

variable (events : List ContractEvent)

@[simp] lemma occurrences_map_pair :
    occurrences (events.map fun event => (depth, event)) = events := by
  simp [occurrences, Function.comp_def]

/-- At the depth of a machine its own events do not count. -/
@[simp] lemma copies_map_pair :
    copies depth (events.map fun event => (depth, event)) = 0 := by
  simp [copies, Function.comp_def]

/-- One level up there is one copy more. -/
lemma copies_add_occurrences (h : ∀ x ∈ log, depth < x.1) :
    copies depth log = copies (depth + 1) log + occurrences log := by
  induction log with
  | nil => rfl
  | cons x log ih =>
    obtain ⟨hx, hlog⟩ := List.forall_mem_cons.mp h
    have hcopy : x.1 - depth = x.1 - (depth + 1) + 1 := by omega
    have hsum := ih hlog
    simp only [copies, occurrences, List.map_cons, List.sum_cons] at hsum ⊢
    rw [hcopy, Multiset.replicate_succ, hsum, ← cons_coe]
    simp only [cons_add, add_cons, add_assoc]

lemma copies_eq_zero : copies 0 log = 0 ↔ ∀ x ∈ log, x.1 = 0 := by
  induction log with
  | nil => simp
  | cons x log ih =>
    simp only [copies, List.map_cons, List.sum_cons, List.forall_mem_cons] at ih ⊢
    rw [add_eq_zero, ih, ← card_eq_zero, card_replicate, Nat.sub_zero]

end Copies

/-! ### What a machine does -/

variable {α : Type} {vm vm' vm'' : EvaporVm}

/-- The machine has emitted the same events that it reports in addition. -/
def Emits (vm vm' : EvaporVm) : Prop :=
  ∃ events, vm'.structuredEvents = vm.structuredEvents ++ events ∧
    vm'.emitted = vm.emitted ++ events

lemma Emits.same (h : vm'.structuredEvents = vm.structuredEvents) (h' : vm'.emitted = vm.emitted) :
    Emits vm vm' := ⟨[], by simp [h], by simp [h']⟩

lemma Emits.trans (h : Emits vm vm') (h' : Emits vm' vm'') : Emits vm vm'' := by
  obtain ⟨events, hreported, hemitted⟩ := h
  obtain ⟨events', hreported', hemitted'⟩ := h'
  exact ⟨events ++ events', by rw [hreported', hreported, List.append_assoc],
    by rw [hemitted', hemitted, List.append_assoc]⟩

lemma EvaporVm.handle_emits {c : Cmd} {r : c.Answer} (h : vm.handle c = .ok (r, vm')) :
    Emits vm vm' := by
  cases c with
  | fail error => cases h
  | charge cost =>
    obtain ⟨-, rfl⟩ := chargeGas_ok (of_map_ok h)
    exact .same rfl rfl
  | track bytes =>
    rw [trackMemory_ok (of_map_ok h)]
    exact .same rfl rfl
  | push v =>
    rw [push_ok (of_map_ok h)]
    exact .same rfl rfl
  | pop =>
    obtain ⟨stack, -, rfl⟩ := pop_ok h
    exact .same rfl rfl
  | popOrNull =>
    simp only [handle] at h
    split at h <;> cases h <;> exact .same rfl rfl
  | countLoop =>
    rw [countLoop_ok (of_map_ok h)]
    exact .same rfl rfl
  | emit event =>
    cases h
    exact ⟨[event], rfl, rfl⟩
  | load name | store name v | stateLoad field | stateStore field v | stateLen | log message =>
    cases h
    exact .same rfl rfl

lemma VmM.exec_emits {p : VmM α} {a : α} (h : p.exec vm = .ok (a, vm')) : Emits vm vm' := by
  have hstep : ∀ (c : Cmd) (s : EvaporVm) (r : c.Answer) (s' : EvaporVm),
      EvaporVm.handle c s = .ok (r, s') → Emits s s' := fun _ _ _ _ => EvaporVm.handle_emits
  exact Routine.run_relates (Q := Emits) (fun _ => .same rfl rfl) (fun _ _ _ => Emits.trans) hstep h

/-! ### Call trees -/

/-- What a call tree below `depth` adds: the log of its events, what it reports to the machine that
made the calls and what the router collects. -/
structure Reports (depth : ℕ) (router router' : ContractCallRouter)
    (reported : Multiset ContractEvent) : Prop where
  exists_log : ∃ log, router'.trace.emitted = router.trace.emitted ++ log ∧
    (∀ x ∈ log, depth < x.1) ∧ reported = occurrences log ∧
    (router'.collectedEvents : Multiset ContractEvent) =
      router.collectedEvents + copies depth log

variable (depth : ℕ)

lemma Reports.refl (router : ContractCallRouter) : Reports depth router router 0 :=
  ⟨[], by simp, by simp, rfl, by simp⟩

lemma Reports.trans {depth : ℕ} {router router' router'' : ContractCallRouter}
    {reported reported' : Multiset ContractEvent} (h : Reports depth router router' reported)
    (h' : Reports depth router' router'' reported') :
    Reports depth router router'' (reported + reported') := by
  obtain ⟨log, hlog, hdeep, rfl, hcollected⟩ := h
  obtain ⟨log', hlog', hdeep', rfl, hcollected'⟩ := h'
  refine ⟨log ++ log', by rw [hlog', hlog, List.append_assoc], ?_, by simp, ?_⟩
  · intro x hx
    exact (List.mem_append.mp hx).elim (hdeep x) (hdeep' x)
  · rw [hcollected', hcollected, copies_append, add_assoc]

/-- Calls made by a machine at `depth`. -/
def ReportsFrom (ext : ExternalCaller ContractCallRouter) : Prop :=
  ∀ request router reply router', request.callDepth = depth + 1 →
    ext request router = some (.ok reply, router') → Reports depth router router' reply.events

/-- Invariant of a run at `depth`: beside its own events the machine reports those of its calls. -/
def Accounted (router₀ : ContractCallRouter) (vm : EvaporVm) (router : ContractCallRouter) : Prop :=
  ∃ reported, (vm.structuredEvents : Multiset ContractEvent) = vm.emitted + reported ∧
    Reports depth router₀ router reported

section Run

variable {depth : ℕ} {router₀ router router' : ContractCallRouter}
  {m : Method ContractCallRouter}

section

variable (h : Accounted depth router₀ vm router)

include h

lemma Accounted.emits (hemits : Emits vm vm') : Accounted depth router₀ vm' router := by
  obtain ⟨reported, hevents, hreports⟩ := h
  obtain ⟨events, hstructured, hemitted⟩ := hemits
  refine ⟨reported, ?_, hreports⟩
  rw [hstructured, hemitted, ← coe_add, ← coe_add, hevents, add_right_comm]

lemma Accounted.complete :
    Accounted depth router₀ vm.complete router := h

lemma Accounted.exec {p : VmM α} {a : α}
    (hop : p.exec vm.tick = .ok (a, vm')) : Accounted depth router₀ vm' router := by
  have htick : Accounted depth router₀ vm.tick router := h
  exact htick.emits (VmM.exec_emits hop)

lemma Accounted.afterCall {reply : CallReply} (hreports : Reports depth router router' reply.events)
    (hafter : vm.afterCall reply = .ok vm') : Accounted depth router₀ vm' router' := by
  obtain ⟨reported, hevents, hreported⟩ := h
  obtain ⟨-, rfl⟩ := EvaporVm.afterCall_ok hafter
  refine ⟨reported + reply.events, ?_, hreported.trans hreports⟩
  rw [← add_assoc, ← hevents, coe_add]

end

variable {result : RunResult ContractCallRouter}

lemma loop_accounted (hext : ∀ ext ∈ m.external, ReportsFrom m.ctx.callDepth ext) {fuel ip : ℕ}
    {v : Value} (h : Accounted m.ctx.callDepth router₀ vm router)
    (hloop : m.loop fuel ip vm router = some result) (hok : result.result = .ok v) :
    Accounted m.ctx.callDepth router₀ result.vm result.caller := by
  refine Method.loop_rule (P := Accounted m.ctx.callDepth router₀) (Q := fun result =>
    result.result = .ok v → Accounted m.ctx.callDepth router₀ result.vm result.caller)
    ?_ ?_ h hloop hok
  · intro ip vm router result h hround hok
    cases Method.round_cases hround with
    | halt => exact h
    | stepLimit | opError => cases hok
    | ret hip hlimit hop => exact (h.exec hop).complete
    | call hip hlimit hop hcall =>
      cases Method.callRound_cases hcall <;> cases hok
  · intro ip vm router ip' vm' router' h hround
    cases Method.round_cases hround with
    | next hip hlimit hop | jump hip hlimit hop => exact (h.exec hop).complete
    | call hip hlimit hop hcall =>
      cases Method.callRound_cases hcall with
      | returned hsome hcall hafter =>
        exact ((h.exec hop).afterCall (hext _ hsome _ _ _ _ rfl hcall) hafter).complete

lemma executeFullWithSelf_accounted {host : ScriptHost} {fuel : ℕ} {bytecode : EvaporBytecode}
    {method : String} {args : List Value} {state : ScriptState} {ctx : ExecutionContext}
    {gasLimit : ℕ} {external : Option (ExternalCaller ContractCallRouter)} {id : ℕ} {v : Value}
    (hext : ∀ ext ∈ external, ReportsFrom ctx.callDepth ext)
    (h : executeFullWithSelf host fuel bytecode method args state ctx gasLimit external id router =
      some result) (hok : result.result = .ok v) :
    Accounted ctx.callDepth router result.vm result.caller := by
  rcases executeFullWithSelf_cases h with ⟨e, rfl⟩ | ⟨offset, -, hloop⟩
  · cases hok
  · have hstart : Accounted ctx.callDepth router { EvaporVm.new state gasLimit with
        executingContractId := id, inLifecycleHook := isLifecycleHook method
        stack := args.reverse } router := ⟨0, rfl, .refl _ _⟩
    exact loop_accounted (m := ⟨host, bytecode.opcodes, ctx, external⟩) hext hstart hloop hok

end Run

/-- Each event of a nested call reaches the calling machine once, and the router once for every
level above which it was emitted. -/
lemma callExternal_reports (host : ScriptHost) (fuel levels depth : ℕ) :
    ReportsFrom depth (callExternal host fuel levels) := by
  induction levels generalizing depth with
  | zero =>
    intro request router reply router' hdepth h
    cases h
  | succ levels ih =>
    intro request router reply router' hdepth h
    rcases callExternal_cases h with ⟨_, herror, -⟩ | ⟨levels', contract, run,
      hlevels, -, hexec, ⟨_, -, herror, -⟩ | ⟨v, hv, hreply, rfl⟩⟩
    · cases herror
    · cases herror
    · obtain rfl := Nat.succ.inj hlevels
      cases hreply
      obtain ⟨reported, hevents, ⟨log, hlog, hdeep, rfl, hcollected⟩⟩ :=
        executeFullWithSelf_accounted (fun ext hext => Option.some.inj hext ▸ ih _) hexec hv
      simp only [hdepth] at hdeep hcollected hlog
      have hall : ∀ x ∈ log ++ run.vm.emitted.map fun event => (depth + 1, event), depth < x.1 := by
        intro x hx
        rcases List.mem_append.mp hx with hx | hx
        · exact (Nat.lt_succ_self depth).trans (hdeep x hx)
        · obtain ⟨event, -, rfl⟩ := List.mem_map.mp hx
          exact Nat.lt_succ_self depth
      have hreported : (run.vm.structuredEvents : Multiset ContractEvent) =
          occurrences (log ++ run.vm.emitted.map fun event => (depth + 1, event)) := by
        rw [hevents, occurrences_append, occurrences_map_pair, add_comm]
      refine ⟨_, ?_, hall, hreported, ?_⟩
      · simp only [collect, leave, CallTrace.add, hlog, hdepth]
        simp [enter]
      · simp only [collect, leave]
        rw [← coe_add, hcollected, copies_add_occurrences hall, ← hreported, copies_append,
          copies_map_pair, add_zero, add_assoc]
        rfl

/-! ### The whole call -/

/-- A successful call reports every event once and once more for every level of nesting, so it
reports each event exactly once if and only if only the outermost machine emits events. -/
theorem callWithVmGas_events_iff {engine : ScriptEngine} {host : ScriptHost}
    {fuel contractId currentEpoch vmGasLimit : ℕ} {method : String} {args : List Value}
    {caller : AccountAddress} {outcome : CallOutcome} {result : ScriptCallResult}
    (h : engine.callWithVmGas host fuel contractId method args caller currentEpoch vmGasLimit =
      some outcome) (hok : outcome.result = .ok result) :
    (result.structuredEvents : Multiset ContractEvent) =
        occurrences outcome.trace.emitted + copies 0 outcome.trace.emitted ∧
      ((result.structuredEvents : Multiset ContractEvent) = occurrences outcome.trace.emitted ↔
        ∀ x ∈ outcome.trace.emitted, x.1 = 0) := by
  obtain ⟨contract, run, v, hexec, hv, rfl, htrace⟩ := ScriptEngine.callWithVmGas_ok h hok
  obtain ⟨reported, hevents, ⟨log, hlog, hdeep, rfl, hcollected⟩⟩ :=
    executeFullWithSelf_accounted
      (fun ext hext => Option.some.inj hext ▸ callExternal_reports host fuel fuel _) hexec hv
  have hemitted : outcome.trace.emitted = log ++ run.vm.emitted.map fun event => (0, event) := by
    rw [htrace]
    simp only [CallTrace.add, hlog]
    rfl
  have hcopies : copies 0 outcome.trace.emitted = copies 0 log := by
    rw [hemitted, copies_append, copies_map_pair, add_zero]
  have hoccurrences : occurrences outcome.trace.emitted = run.vm.structuredEvents := by
    rw [hemitted, occurrences_append, occurrences_map_pair, hevents, add_comm]
  have hall : ((run.vm.structuredEvents ++ run.caller.collectedEvents : List ContractEvent) :
      Multiset ContractEvent) =
        occurrences outcome.trace.emitted + copies 0 outcome.trace.emitted := by
    rw [← coe_add, hcollected, hoccurrences, hcopies]
    exact congrArg _ (zero_add _)
  refine ⟨hall, ?_⟩
  rw [hall, add_eq_left, copies_eq_zero]

/-- Contract 1 emits an event and calls contract 2. -/
def callingEngine (inner : List Op) : ScriptEngine :=
  engineOf [contractOf [.push (.str "outer"), .emit, .push (.u64 2), .push (.str "run"),
      .callExternal 2, .ret] ∅,
    contractOf inner ∅]

/-- The one event of a call whose nested call is quiet is reported once. -/
theorem callWithVmGas_events_quiet :
    ∃ outcome result,
      (callingEngine [.push (.u64 7), .ret]).callWithVmGas plainHost 9 1 "run" [] Hash.zero 0 500 =
        some outcome ∧
      outcome.result = .ok result ∧
      (result.structuredEvents : Multiset ContractEvent) = occurrences outcome.trace.emitted := by
  have hrun : ((callingEngine [.push (.u64 7), .ret]).callWithVmGas plainHost 9 1 "run" []
      Hash.zero 0 500).map (fun outcome => (outcome.result.isOk, outcome.trace.emitted)) =
        some (true, [(0, ⟨"Log", [], [.str "outer"]⟩)]) := by decide +kernel
  obtain ⟨outcome, h, houtcome⟩ := Option.map_eq_some_iff.mp hrun
  obtain ⟨hok, hemitted⟩ := Prod.mk.inj houtcome
  cases hresult : outcome.result with
  | error e => simp [hresult, Except.isOk, Except.toBool] at hok
  | ok result =>
    refine ⟨outcome, result, h, hresult, (callWithVmGas_events_iff h hresult).2.mpr ?_⟩
    simp [hemitted]

/-- Two events are emitted, three are reported: the one of the nested call twice. -/
theorem callWithVmGas_events_doubled :
    ((callingEngine [.push (.str "inner"), .emit, .halt]).callWithVmGas plainHost 9 1 "run" []
        Hash.zero 0 500).map
      (fun outcome => (outcome.result.toOption.map (·.structuredEvents), outcome.trace.emitted)) =
    some (some [⟨"Log", [], [.str "outer"]⟩, ⟨"Log", [], [.str "inner"]⟩,
        ⟨"Log", [], [.str "inner"]⟩],
      [(1, ⟨"Log", [], [.str "inner"]⟩), (0, ⟨"Log", [], [.str "outer"]⟩)]) := by
  decide +kernel

end EvaporChain.Script
