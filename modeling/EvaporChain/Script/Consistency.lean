import EvaporChain.Script.Gas

/-!
# Sequential consistency

An engine in which every nested call starts from the current state of its contract and commits what
it has written before it returns. The script engine agrees with it as long as no contract is called
again after a call of the same transaction has changed its state.
-/

namespace EvaporChain.Script

open Core Method Function List

/-! ### The sequential engine -/

/-- Contracts with their current states. -/
structure SequentialRouter where
  contracts : ℕ → Option ScriptContract
  vrfRandomness : Hash
  activeCalls : Finset ℕ

namespace SequentialRouter

def commit (router : SequentialRouter) (contractId : ℕ) (state : ScriptState) : SequentialRouter :=
  { router with
    contracts := Function.update router.contracts contractId
      ((router.contracts contractId).map fun contract => { contract with state }) }

/-- A nested call on the current state of its contract. -/
def callExternal (host : ScriptHost) (fuel : ℕ) : ℕ → ExternalCaller SequentialRouter
  | 0, _, _ => none
  | levels + 1, request, router =>
    match request.target router.contracts router.activeCalls with
    | .error e => some (.error (.runtime e), router)
    | .ok contract =>
      match executeFullWithSelf host fuel contract.bytecode request.method request.args
        contract.state
        ⟨request.caller, contract.creator, request.epoch, contract.energyAt request.epoch,
          router.vrfRandomness, request.callDepth⟩
        request.gasRemaining (some (callExternal host fuel levels)) request.contractId
        { router with activeCalls := insert request.contractId router.activeCalls } with
      | none => none
      | some ⟨result, vm, router⟩ =>
        let router := { router with activeCalls := router.activeCalls.erase request.contractId }
        match result with
        | .error e => some (.error e, router)
        | .ok v =>
          some (.ok ⟨v, vm.structuredEvents, vm.gasUsed⟩, router.commit request.contractId vm.state)

end SequentialRouter

/-- A call in which every nested call sees the effects of the calls before it: return value and
contracts afterwards. -/
def ScriptEngine.callSequentially (engine : ScriptEngine) (host : ScriptHost)
    (fuel contractId : ℕ) (method : String) (args : List Value) (caller : AccountAddress)
    (currentEpoch vmGasLimit : ℕ) : Option (Except ScriptError Value × ScriptEngine) :=
  match liveContract engine.contracts contractId currentEpoch with
  | .error e => some (.error (.runtime e), engine)
  | .ok contract =>
    match executeFullWithSelf host fuel contract.bytecode method args contract.state
      ⟨caller, contract.creator, currentEpoch, contract.energyAt currentEpoch,
        engine.vrfRandomness, 0⟩
      vmGasLimit (some (SequentialRouter.callExternal host fuel fuel)) contractId
      ⟨engine.contracts, engine.vrfRandomness, {contractId}⟩ with
    | none => none
    | some ⟨result, vm, router⟩ =>
      match result with
      | .error e => some (.error e, engine)
      | .ok v =>
        some (.ok v, ⟨(router.commit contractId vm.state).contracts, engine.vrfRandomness⟩)

variable {request : CallRequest}

lemma CallRequest.target_ok {contracts : ℕ → Option ScriptContract}
    {activeCalls : Finset ℕ} {contract : ScriptContract}
    (h : request.target contracts activeCalls = .ok contract) :
    request.contractId ∉ activeCalls ∧ contracts request.contractId = some contract := by
  unfold CallRequest.target at h
  split_ifs at h with _ hactive
  exact ⟨hactive, liveContract_ok h⟩

/-- The checks do not read the state of a contract. -/
lemma CallRequest.target_patched {contracts contracts' : ℕ → Option ScriptContract}
    {activeCalls : Finset ℕ} {state : ScriptContract → ScriptState}
    (h : contracts' request.contractId = (contracts request.contractId).map fun contract =>
      { contract with state := state contract }) :
    request.target contracts' activeCalls = (request.target contracts activeCalls).map
      fun contract => { contract with state := state contract } := by
  unfold CallRequest.target liveContract
  rw [h]
  split_ifs
  · rfl
  · rfl
  · cases contracts request.contractId with
    | none => rfl
    | some contract =>
      by_cases hgone : contract.evaporated
      · simp [hgone, Except.map]
      · by_cases hzero : contract.energyAt request.epoch = 0 <;>
          simp_all [ScriptContract.energyAt, Except.map]

/-! ### Runs with different callers -/

section Follow

variable {σ τ : Type} {m : Method σ} {vm : EvaporVm} {s s' : σ} {t : τ} {fuel ip : ℕ}

/-- The same method with another caller. -/
def Method.withExternal (m : Method σ) (ext : Option (ExternalCaller τ)) : Method τ :=
  ⟨m.host, m.opcodes, m.ctx, ext⟩

/-- A run keeps what its calls keep of the caller's state. -/
lemma Method.loop_caller {P : σ → σ → Prop} (hrefl : ∀ s, P s s)
    (htrans : ∀ s s' s'', P s s' → P s' s'' → P s s'')
    (hext : ∀ ext ∈ m.external, ∀ request s result s', ext request s = some (result, s') → P s s')
    {result : RunResult σ} (h : m.loop fuel ip vm s = some result) : P s result.caller := by
  refine loop_rule (P := fun _ s' => P s s') (Q := fun result => P s result.caller)
    ?_ ?_ (hrefl s) h
  · intro ip vm s' result hP hround
    cases round_cases hround with
    | halt | stepLimit | opError | ret => exact hP
    | call hip hlimit hop hcall =>
      cases callRound_cases hcall with
      | unavailable => exact hP
      | failed hsome hreply | rejected hsome hreply =>
        exact htrans _ _ _ hP (hext _ hsome _ _ _ _ hreply)
  · intro ip vm s' ip' vm' s'' hP hround
    cases round_cases hround with
    | next | jump => exact hP
    | call hip hlimit hop hcall =>
      cases callRound_cases hcall with
      | returned hsome hreply => exact htrans _ _ _ hP (hext _ hsome _ _ _ _ hreply)

variable {ext : ExternalCaller σ} {ext' : ExternalCaller τ} {Rel : σ → τ → Prop} {Ok : σ → Prop}

/-- Two callers with related states behave alike, as long as the first one ends in a good state. -/
def Follows (ext : ExternalCaller σ) (ext' : ExternalCaller τ) (Rel : σ → τ → Prop)
    (Ok : σ → Prop) : Prop :=
  ∀ request s t result s', Rel s t → ext request s = some (result, s') → Ok s' →
    ∃ t', ext' request t = some (result, t') ∧ Rel s' t'

variable (hext : m.external = some ext)

include hext

lemma callRound_follows (hfollows : Follows ext ext' Rel Ok) (hrel : Rel s t) {round : Round σ}
    (h : m.callRound ip request vm s = some round) :
    match round with
    | .done result => Ok result.caller → ∃ t',
        (m.withExternal (some ext')).callRound ip request vm t =
          some (.done ⟨result.result, result.vm, t'⟩) ∧ Rel result.caller t'
    | .goto ip' vm' s' => Ok s' → ∃ t',
        (m.withExternal (some ext')).callRound ip request vm t = some (.goto ip' vm' t') ∧
          Rel s' t' := by
  cases callRound_cases h with
  | unavailable hnone =>
    rw [hext] at hnone
    cases hnone
  | failed hsome hcall =>
    intro hok
    cases hext.symm.trans hsome
    obtain ⟨t', hcall', hrel'⟩ := hfollows _ _ _ _ _ hrel hcall hok
    exact ⟨t', (Method.CallCase.failed rfl hcall').callRound, hrel'⟩
  | rejected hsome hcall hafter =>
    intro hok
    cases hext.symm.trans hsome
    obtain ⟨t', hcall', hrel'⟩ := hfollows _ _ _ _ _ hrel hcall hok
    exact ⟨t', (Method.CallCase.rejected rfl hcall' hafter).callRound, hrel'⟩
  | returned hsome hcall hafter =>
    intro hok
    cases hext.symm.trans hsome
    obtain ⟨t', hcall', hrel'⟩ := hfollows _ _ _ _ _ hrel hcall hok
    exact ⟨t', (Method.CallCase.returned rfl hcall' hafter).callRound, hrel'⟩

lemma round_follows (hfollows : Follows ext ext' Rel Ok)
    (hrel : Rel s t) {round : Round σ} (h : m.round ip vm s = some round) :
    match round with
    | .done result => Ok result.caller → ∃ t',
        (m.withExternal (some ext')).round ip vm t =
          some (.done ⟨result.result, result.vm, t'⟩) ∧ Rel result.caller t'
    | .goto ip' vm' s' => Ok s' → ∃ t',
        (m.withExternal (some ext')).round ip vm t = some (.goto ip' vm' t') ∧ Rel s' t' := by
  -- the instruction does not depend on the caller
  have hround {round' : Round τ} (h : (m.withExternal (some ext')).RoundCase ip vm t round') :=
    h.round
  cases round_cases h with
  | halt hip => exact fun _ => ⟨t, hround (.halt hip), hrel⟩
  | stepLimit hip hlimit => exact fun _ => ⟨t, hround (.stepLimit hip hlimit), hrel⟩
  | opError hip hlimit hop => exact fun _ => ⟨t, hround (.opError hip hlimit hop), hrel⟩
  | next hip hlimit hop => exact fun _ => ⟨t, hround (.next hip hlimit hop), hrel⟩
  | jump hip hlimit hop => exact fun _ => ⟨t, hround (.jump hip hlimit hop), hrel⟩
  | ret hip hlimit hop => exact fun _ => ⟨t, hround (.ret hip hlimit hop), hrel⟩
  | call hip hlimit hop hcall =>
    have hcall' := callRound_follows hext hfollows hrel hcall
    cases round with
    | done result | goto ip' vm' s' =>
      intro hok
      obtain ⟨t', heq, hrel'⟩ := hcall' hok
      exact ⟨t', hround (.call hip hlimit hop heq), hrel'⟩

/-- A whole run. Good states are reached through good states only. -/
lemma loop_follows (hfollows : Follows ext ext' Rel Ok)
    (hback : ∀ request s result s', ext request s = some (result, s') → Ok s' → Ok s)
    (hrel : Rel s t) {result : RunResult σ} (h : m.loop fuel ip vm s = some result)
    (hok : Ok result.caller) :
    ∃ t', (m.withExternal (some ext')).loop fuel ip vm t =
      some ⟨result.result, result.vm, t'⟩ ∧ Rel result.caller t' := by
  induction fuel generalizing ip vm s t with
  | zero => cases h
  | succ fuel ih =>
    simp only [loop] at h ⊢
    cases hround : m.round ip vm s with
    | none => simp [hround] at h
    | some round =>
      simp only [hround] at h
      have hfollow := round_follows hext hfollows hrel hround
      cases round with
      | done result' =>
        cases h
        obtain ⟨t', hround', hrel'⟩ := hfollow hok
        exact ⟨t', by simp [hround'], hrel'⟩
      | goto ip' vm' s' =>
        have hok' : Ok s' := loop_caller (P := fun s s' => Ok s' → Ok s) (fun _ h => h)
          (fun _ _ _ h h' hs => h (h' hs))
          (fun e he request s result s' h => hback request s result s'
            (Option.some.inj (hext.symm.trans he) ▸ h)) h hok
        obtain ⟨t', hround', hrel'⟩ := hfollow hok'
        simp only [hround']
        exact ih hrel' h

end Follow

/-! ### State fields -/

variable {state : ScriptState}

/-- A run removes no state field. -/
lemma executeFullWithSelf_fields {σ : Type} {s : σ} {host : ScriptHost} {fuel : ℕ}
    {bytecode : EvaporBytecode} {method : String} {args : List Value} {ctx : ExecutionContext}
    {gasLimit : ℕ} {external : Option (ExternalCaller σ)} {id : ℕ} {result : RunResult σ}
    (h : executeFullWithSelf host fuel bytecode method args state ctx gasLimit external id s =
      some result) : ∀ field ∈ state, field ∈ result.vm.state := by
  rcases executeFullWithSelf_cases h with ⟨e, rfl⟩ | ⟨offset, -, hloop⟩
  · exact fun _ h => h
  · have hexec {α : Type} {p : VmM α} {a : α} {vm vm' : EvaporVm}
        (hvm : ∀ field ∈ state, field ∈ vm.state) (hp : p.exec vm.tick = .ok (a, vm')) :
        ∀ field ∈ state, field ∈ vm'.state :=
      fun field hfield => (VmM.exec_frame hp).fields field (hvm field hfield)
    refine loop_rule (P := fun vm _ => ∀ field ∈ state, field ∈ vm.state)
      (Q := fun result => ∀ field ∈ state, field ∈ result.vm.state) ?_ ?_ (fun _ h => h) hloop
    · intro ip vm s result hvm hround
      cases round_cases hround with
      | halt | stepLimit | opError => exact hvm
      | ret hip hlimit hop =>
        have hvm' := hexec hvm hop
        exact hvm'
      | call hip hlimit hop hcall =>
        have hvm' := hexec hvm hop
        cases callRound_cases hcall <;> exact hvm'
    · intro ip vm s ip' vm' s' hvm hround
      cases round_cases hround with
      | next hip hlimit hop | jump hip hlimit hop =>
        have hvm' := hexec hvm hop
        exact hvm'
      | call hip hlimit hop hcall =>
        have hvm' := hexec hvm hop
        cases callRound_cases hcall with
        | returned hsome hreply hafter =>
          obtain ⟨-, rfl⟩ := EvaporVm.afterCall_ok hafter
          exact hvm'

/-- Writing a state over one with fewer fields. -/
lemma union_eq_left {state' : ScriptState} (h : ∀ field ∈ state', field ∈ state) :
    state ∪ state' = state := by
  apply Finmap.ext_lookup
  intro field
  by_cases hfield : field ∈ state
  · exact Finmap.lookup_union_left hfield
  · rw [Finmap.lookup_union_right hfield, Finmap.lookup_eq_none.mpr hfield,
      Finmap.lookup_eq_none.mpr fun h' => hfield (h field h')]

/-! ### Patches -/

namespace ContractCallRouter

variable {id id' : ℕ} {state state' : ScriptState} {patches patches' : List (ℕ × ScriptState)}

lemma patched_append :
    patched id state (patches ++ patches') = patched id (patched id state patches) patches' := by
  simp [patched]

lemma patched_of_ne (h : ∀ patch ∈ patches, patch.1 ≠ id) : patched id state patches = state := by
  induction patches generalizing state with
  | nil => rfl
  | cons patch patches ih =>
    obtain ⟨hpatch, hpatches⟩ := List.forall_mem_cons.mp h
    have hhead : patched id state (patch :: patches) = patched id state patches := by
      simp [patched, hpatch]
    rw [hhead, ih hpatches]

lemma patched_concat_self :
    patched id state (patches ++ [(id, state')]) = state' ∪ patched id state patches := by
  simp [patched]

lemma patched_concat_of_ne (h : id' ≠ id) :
    patched id state (patches ++ [(id', state')]) = patched id state patches := by
  simp [patched, h]

/-- What calls do to a router: contracts that are being run get no patches. -/
structure Extends (router router' : ContractCallRouter) : Prop where
  contracts : router'.contracts = router.contracts
  vrfRandomness : router'.vrfRandomness = router.vrfRandomness
  activeCalls : router'.activeCalls = router.activeCalls
  statePatches : ∃ patches, router'.statePatches = router.statePatches ++ patches ∧
    ∀ patch ∈ patches, patch.1 ∉ router.activeCalls
  starts : router.trace.starts <+: router'.trace.starts

lemma Extends.refl (router : ContractCallRouter) : Extends router router :=
  ⟨rfl, rfl, rfl, ⟨[], by simp, by simp⟩, prefix_refl _⟩

variable {router : ContractCallRouter}

lemma Extends.trans {router' router'' : ContractCallRouter} (h : Extends router router')
    (h' : Extends router' router'') : Extends router router'' := by
  obtain ⟨patches, hpatches, hactive⟩ := h.statePatches
  obtain ⟨patches', hpatches', hactive'⟩ := h'.statePatches
  refine ⟨h'.contracts.trans h.contracts, h'.vrfRandomness.trans h.vrfRandomness,
    h'.activeCalls.trans h.activeCalls, ⟨patches ++ patches', ?_, ?_⟩, h.starts.trans h'.starts⟩
  · rw [hpatches', hpatches, append_assoc]
  · intro patch hpatch
    rcases List.mem_append.mp hpatch with hmem | hmem
    · exact hactive patch hmem
    · rw [← h.activeCalls]
      exact hactive' patch hmem

variable {host : ScriptHost} {fuel levels : ℕ}

/-- The run of a method. -/
lemma executeFullWithSelf_extends {bytecode : EvaporBytecode} {method : String} {args : List Value}
    {ctx : ExecutionContext} {gasLimit : ℕ} {ext : ExternalCaller ContractCallRouter}
    {run : RunResult ContractCallRouter}
    (hext : ∀ request router result router', ext request router = some (result, router') →
      Extends router router')
    (h : executeFullWithSelf host fuel bytecode method args state ctx gasLimit (some ext) id
      router = some run) : Extends router run.caller := by
  rcases executeFullWithSelf_cases h with ⟨e, rfl⟩ | ⟨offset, -, hloop⟩
  · exact .refl _
  · refine loop_caller Extends.refl (fun _ _ _ => Extends.trans) ?_ hloop
    intro ext' hext' request router result router' hcall
    exact hext request router result router' (Option.some.inj hext' ▸ hcall)

lemma callExternal_extends {router' : ContractCallRouter} {result : Except ScriptError CallReply}
    (h : callExternal host fuel levels request router = some (result, router')) :
    Extends router router' := by
  induction levels generalizing request router router' result with
  | zero => cases h
  | succ levels ih =>
    rcases callExternal_cases h with ⟨_, -, rfl⟩ | ⟨levels', contract, run, hlevels, htarget, hexec,
      hcases⟩
    · exact .refl _
    · obtain rfl := Nat.succ.inj hlevels
      have hactive := (CallRequest.target_ok htarget).1
      have hrun := executeFullWithSelf_extends (fun _ _ _ _ => ih) hexec
      obtain ⟨patches, hpatches, hinactive⟩ := hrun.statePatches
      simp only [enter] at hpatches hinactive
      have herase : run.caller.activeCalls.erase request.contractId = router.activeCalls := by
        rw [hrun.activeCalls]
        exact Finset.erase_insert hactive
      have hstarts : router.trace.starts <+: run.caller.trace.starts :=
        (prefix_append _ _).trans hrun.starts
      have hothers : ∀ patch ∈ patches, patch.1 ∉ router.activeCalls := fun patch hpatch hmem =>
        hinactive patch hpatch (Finset.mem_insert_of_mem hmem)
      rcases hcases with ⟨_, -, -, rfl⟩ | ⟨v, -, -, rfl⟩
      · exact ⟨hrun.contracts, hrun.vrfRandomness, herase, ⟨patches, hpatches, hothers⟩, hstarts⟩
      · refine ⟨hrun.contracts, hrun.vrfRandomness, herase,
          ⟨patches ++ [(request.contractId, run.vm.state)], ?_, ?_⟩, hstarts⟩
        · simp [collect, leave, hpatches]
        · intro patch hpatch
          rcases List.mem_append.mp hpatch with hmem | hmem
          · exact hothers patch hmem
          · rw [List.mem_singleton.mp hmem]
            exact hactive

end ContractCallRouter

open ContractCallRouter (patched patched_append patched_of_ne patched_concat_self
  patched_concat_of_ne callExternal_extends executeFullWithSelf_extends)

/-! ### Agreement -/

/-- The sequential engine has the states in which the collected patches leave the contracts. -/
structure Tracks (router : ContractCallRouter) (seq : SequentialRouter) : Prop where
  contracts : ∀ id, seq.contracts id = (router.contracts id).map fun contract =>
    { contract with state := patched id contract.state router.statePatches }
  vrfRandomness : seq.vrfRandomness = router.vrfRandomness
  activeCalls : seq.activeCalls = router.activeCalls

/-- Every nested call has started from the current state of its contract. -/
def CallTrace.Fresh (trace : CallTrace) : Prop :=
  ∀ start ∈ trace.starts, start.current = start.clone

section Agreement

variable {host : ScriptHost} {fuel levels : ℕ} {router router' : ContractCallRouter}
  {seq seq' : SequentialRouter}

lemma Tracks.enter (h : Tracks router seq) (id : ℕ) (state : ScriptState) :
    Tracks (router.enter id state)
      { seq with activeCalls := insert id seq.activeCalls } :=
  ⟨h.contracts, h.vrfRandomness, by simp [ContractCallRouter.enter, h.activeCalls]⟩

lemma Tracks.leave (h : Tracks router seq) (id callDepth : ℕ) (vm : EvaporVm) :
    Tracks (router.leave id callDepth vm)
      { seq with activeCalls := seq.activeCalls.erase id } :=
  ⟨h.contracts, h.vrfRandomness, by simp [ContractCallRouter.leave, h.activeCalls]⟩

/-- Committing a state and collecting it as a patch, if it has the fields of the state before. -/
lemma Tracks.collect (h : Tracks router seq) {id : ℕ} {vm : EvaporVm}
    (hfields : ∀ contract ∈ router.contracts id,
      ∀ field ∈ patched id contract.state router.statePatches,
        field ∈ vm.state) : Tracks (router.collect id vm) (seq.commit id vm.state) := by
  refine ⟨fun id' => ?_, h.vrfRandomness, h.activeCalls⟩
  by_cases hid : id' = id
  · subst hid
    simp only [SequentialRouter.commit, update_self, h.contracts, Option.map_map]
    refine Option.map_congr fun contract hcontract => ?_
    simp [ContractCallRouter.collect, patched_concat_self,
      union_eq_left (hfields contract hcontract)]
  · simp [SequentialRouter.commit, update_of_ne hid, h.contracts, ContractCallRouter.collect,
      patched_concat_of_ne (Ne.symm hid)]

lemma executeFullWithSelf_follows {bytecode : EvaporBytecode} {method : String}
    {args : List Value} {state : ScriptState} {ctx : ExecutionContext} {gasLimit id : ℕ}
    {run : RunResult ContractCallRouter}
    (hfollows : Follows (ContractCallRouter.callExternal host fuel levels)
      (SequentialRouter.callExternal host fuel levels) Tracks (·.trace.Fresh))
    (htracks : Tracks router seq)
    (h : executeFullWithSelf host fuel bytecode method args state ctx gasLimit
      (some (ContractCallRouter.callExternal host fuel levels)) id router = some run)
    (hfresh : run.caller.trace.Fresh) :
    ∃ seq', executeFullWithSelf host fuel bytecode method args state ctx gasLimit
        (some (SequentialRouter.callExternal host fuel levels)) id seq =
          some ⟨run.result, run.vm, seq'⟩ ∧ Tracks run.caller seq' := by
  simp only [executeFullWithSelf, executeMethod] at h ⊢
  split at h
  · cases h
    exact ⟨seq, rfl, htracks⟩
  · split at h
    · cases h
      exact ⟨seq, rfl, htracks⟩
    · exact loop_follows rfl hfollows
        (fun _ _ _ _ hcall hok start hstart =>
          hok start ((callExternal_extends hcall).starts.subset hstart)) htracks h hfresh

/-- Nested calls agree as long as they start from current states. -/
lemma callExternal_follows (levels : ℕ) :
    Follows (ContractCallRouter.callExternal host fuel levels)
      (SequentialRouter.callExternal host fuel levels) Tracks (·.trace.Fresh) := by
  induction levels with
  | zero =>
    intro request router seq result router' htracks h hfresh
    cases h
  | succ levels ih =>
    intro request router seq result router' htracks h hfresh
    simp only [ContractCallRouter.callExternal] at h
    simp only [SequentialRouter.callExternal, htracks.activeCalls, htracks.vrfRandomness,
      CallRequest.target_patched (htracks.contracts request.contractId)]
    cases htarget : request.target router.contracts router.activeCalls with
    | error e =>
      rw [htarget] at h
      cases h
      exact ⟨seq, rfl, htracks⟩
    | ok contract =>
      simp only [htarget] at h
      simp only [Except.map]
      split at h
      · cases h
      · rename_i result' vm caller hrun
        have hextends := executeFullWithSelf_extends (fun _ _ _ _ => callExternal_extends) hrun
        have hcaller : caller.trace.Fresh := by
          cases result' <;> cases h <;> exact hfresh
        -- the clone is the current state
        have hstate : patched request.contractId contract.state router.statePatches =
            contract.state :=
          hcaller _ (hextends.starts.subset (mem_append_right _ (.head _)))
        obtain ⟨seq', hrun', htracks'⟩ := executeFullWithSelf_follows ih
          (htracks.enter request.contractId contract.state) hrun hcaller
        simp only [htracks.activeCalls, htracks.vrfRandomness] at hrun'
        simp only [hstate]
        rw [hrun']
        have hleave := htracks'.leave request.contractId request.callDepth vm
        cases result' with
        | error e =>
          cases h
          exact ⟨_, rfl, hleave⟩
        | ok v =>
          cases h
          refine ⟨_, rfl, hleave.collect fun contract' hcontract' => ?_⟩
          -- no call below has patched the contract that was running
          obtain ⟨patches, hpatches, hinactive⟩ := hextends.statePatches
          simp only [ContractCallRouter.enter] at hpatches hinactive
          have hcontracts : caller.contracts = router.contracts := hextends.contracts
          simp only [ContractCallRouter.leave, hcontracts, (CallRequest.target_ok htarget).2,
            Option.mem_some_iff] at hcontract'
          subst hcontract'
          simp only [ContractCallRouter.leave, hpatches, patched_append, hstate]
          rw [patched_of_ne fun patch hpatch heq =>
            hinactive patch hpatch (heq ▸ Finset.mem_insert_self _ _)]
          exact executeFullWithSelf_fields hrun

end Agreement

/-! ### Applying the patches -/

namespace ScriptEngine

variable (engine : ScriptEngine) (patch : ℕ × ScriptState)

lemma applyPatch_contracts (id : ℕ) :
    (engine.applyPatch patch).contracts id = (engine.contracts id).map fun contract =>
      { contract with state := patched id contract.state [patch] } := by
  simp only [applyPatch, patched]
  by_cases hid : patch.1 = id
  · subst hid
    cases h : engine.contracts patch.1 <;> simp [h]
  · cases h : engine.contracts patch.1 <;>
      simp [hid, update_of_ne (Ne.symm hid)]

lemma applyPatch_vrfRandomness :
    (engine.applyPatch patch).vrfRandomness = engine.vrfRandomness := by
  unfold applyPatch
  split <;> rfl

/-- Applying patches one after the other. -/
lemma foldl_applyPatch (patches : List (ℕ × ScriptState)) :
    patches.foldl applyPatch engine = ⟨fun id => (engine.contracts id).map fun contract =>
        { contract with state := patched id contract.state patches },
        engine.vrfRandomness⟩ := by
  induction patches generalizing engine with
  | nil => simp [patched]
  | cons patch patches ih =>
    rw [foldl_cons, ih, applyPatch_vrfRandomness]
    congr 1
    funext id
    rw [applyPatch_contracts, Option.map_map]
    rfl

end ScriptEngine

/-- The patches of a whole call leave the contracts in the states of the sequential engine. -/
lemma Tracks.commit {engine : ScriptEngine} {router : ContractCallRouter} {seq : SequentialRouter}
    {contractId : ℕ} {contract : ScriptContract} (h : Tracks router seq)
    (hcontracts : router.contracts = engine.contracts)
    (hcontract : engine.contracts contractId = some contract)
    (hpatches : ∀ patch ∈ router.statePatches, patch.1 ≠ contractId)
    (hfields : ∀ field ∈ contract.state, field ∈ state) :
    (⟨(seq.commit contractId state).contracts, engine.vrfRandomness⟩ : ScriptEngine) =
      router.statePatches.foldl ScriptEngine.applyPatch
        (engine.applyPatch (contractId, state)) := by
  rw [ScriptEngine.foldl_applyPatch, ScriptEngine.applyPatch_vrfRandomness]
  congr 1
  funext id
  rw [ScriptEngine.applyPatch_contracts, Option.map_map]
  by_cases hid : id = contractId
  · subst hid
    simp only [SequentialRouter.commit, update_self, h.contracts, hcontracts, hcontract,
      Option.map_some, comp_apply, patched_of_ne hpatches]
    have hself : patched id contract.state [(id, state)] = state := by
      simp [patched, union_eq_left hfields]
    rw [hself]
  · simp only [SequentialRouter.commit, update_of_ne hid, h.contracts, hcontracts,
      comp_def]
    refine congrArg (Option.map · _) ?_
    funext contract
    have hother : patched id contract.state [(contractId, state)] =
        contract.state := by
      simp [patched, Ne.symm hid]
    rw [hother]

/-- A call in which every nested call starts from the current state of its contract has the result
of the sequential engine. -/
theorem callWithVmGas_sequential (engine : ScriptEngine) (host : ScriptHost)
    (fuel contractId : ℕ) (method : String) (args : List Value) (caller : AccountAddress)
    (currentEpoch vmGasLimit : ℕ) (outcome : CallOutcome)
    (h : engine.callWithVmGas host fuel contractId method args caller currentEpoch vmGasLimit =
      some outcome) (hfresh : outcome.trace.Fresh) :
    engine.callSequentially host fuel contractId method args caller currentEpoch vmGasLimit =
      some (outcome.result.map (·.returnValue), outcome.engine) := by
  simp only [ScriptEngine.callWithVmGas] at h
  simp only [ScriptEngine.callSequentially]
  cases hlive : liveContract engine.contracts contractId currentEpoch with
  | error e =>
    rw [hlive] at h
    cases h
    rfl
  | ok contract =>
    simp only [hlive] at h ⊢
    split at h
    · cases h
    · rename_i result vm router hrun
      have hrouter : router.trace.Fresh := by
        cases result <;> cases h <;> exact hfresh
      have hextends := executeFullWithSelf_extends
        (fun _ _ _ _ => callExternal_extends) hrun
      have htracks : Tracks { ContractCallRouter.fromEngine engine with
          activeCalls := insert contractId (ContractCallRouter.fromEngine engine).activeCalls }
          ⟨engine.contracts, engine.vrfRandomness, {contractId}⟩ := by
        refine ⟨fun id => ?_, rfl, rfl⟩
        simp [ContractCallRouter.fromEngine, patched]
      obtain ⟨seq, hseq, htracks'⟩ :=
        executeFullWithSelf_follows (callExternal_follows fuel) htracks hrun hrouter
      rw [hseq]
      cases result with
      | error e =>
        cases h
        rfl
      | ok v =>
        cases h
        obtain ⟨patches, hpatches, hinactive⟩ := hextends.statePatches
        simp only [ContractCallRouter.fromEngine, nil_append] at hpatches hinactive
        have hcommit := htracks'.commit hextends.contracts (liveContract_ok hlive)
          (fun patch hpatch heq => hinactive patch (hpatches ▸ hpatch)
            (heq ▸ Finset.mem_insert_self _ _))
          (executeFullWithSelf_fields hrun)
        simp [hcommit, Except.map]

def countingContract : ScriptContract :=
  contractOf [.stateLoad "n", .push (.u64 1), .add, .stateStore "n", .stateLoad "n", .ret]
    (Finmap.singleton "n" (.u64 0))

/-- Contract 1 calls contract 2 and then another one. -/
def countingEngine (second : ℕ) : ScriptEngine :=
  engineOf [contractOf [.push (.u64 2), .push (.str "run"), .callExternal 2, .pop,
      .push (.u64 second), .push (.str "run"), .callExternal 2, .ret] ∅,
    countingContract, countingContract]

/-- A call of two contracts, both of which change their state. -/
def countTwo : Option CallOutcome :=
  (countingEngine 3).callWithVmGas plainHost 20 1 "run" [] Hash.zero 0 1000

theorem callWithVmGas_sequential_countTwo :
    ∃ outcome, countTwo = some outcome ∧ outcome.trace.Fresh ∧
      (outcome.engine.contracts 3).map (·.state.lookup "n") = some (some (.u64 1)) ∧
      (countingEngine 3).callSequentially plainHost 20 1 "run" [] Hash.zero 0 1000 =
        some (outcome.result.map (·.returnValue), outcome.engine) := by
  have hsome : countTwo.isSome = true ∧
      (∀ start ∈ (countTwo.map (·.trace.starts)).getD [], start.current = start.clone) ∧
      (countTwo.bind fun outcome => (outcome.engine.contracts 3).map (·.state.lookup "n")) =
        some (some (.u64 1)) := by decide +kernel
  obtain ⟨outcome, houtcome⟩ := Option.isSome_iff_exists.mp hsome.1
  have hfresh : outcome.trace.Fresh := by
    have h := hsome.2.1
    rw [houtcome] at h
    exact h
  have hcounted := hsome.2.2
  rw [houtcome] at hcounted
  exact ⟨outcome, houtcome, hfresh, hcounted,
    callWithVmGas_sequential _ _ _ _ _ _ _ _ _ _ houtcome hfresh⟩

/-- The second call does not see the first one. -/
theorem callWithVmGas_lost_update :
    (((countingEngine 2).callWithVmGas plainHost 20 1 "run" [] Hash.zero 0 1000).map
        fun outcome => (outcome.result.toOption.map (·.returnValue),
          (outcome.engine.contracts 2).map (·.state.lookup "n"))) =
      some (some (.u64 1), some (some (.u64 1))) ∧
    (((countingEngine 2).callSequentially plainHost 20 1 "run" [] Hash.zero 0 1000).map
        fun outcome => (outcome.1.toOption, (outcome.2.contracts 2).map (·.state.lookup "n"))) =
      some (some (.u64 2), some (some (.u64 2))) := by
  constructor <;> decide +kernel

end EvaporChain.Script
