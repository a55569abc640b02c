import EvaporChain.Core.Run

/-!
# Optimistic execution over a multi-version memory

Numbered transactions are programs that read locations one at a time and end with a list of
writes. They run concurrently: a read takes the latest value written by a lower-numbered
transaction and records its version, and the writes of a finished program reach the memory one by
one. Transactions whose recorded versions are no longer current are restarted under a new
incarnation. Two facts are proved about such executions. With each wave of restarts one more
transaction is valid for good. And when no read observes a write that its writer is about to
overwrite, a state in which all transactions are valid is the one of serial execution.
-/

namespace Core

open List

/-! ### Programs -/

/-- A program that reads locations; a read of a location that nobody wrote gets `none`. -/
inductive Prog (L V α : Type)
  | ret (a : α)
  | read (loc : L) (next : Option V → Prog L V α)

namespace Prog

variable {L V α β : Type}

def bind : Prog L V α → (α → Prog L V β) → Prog L V β
  | ret a, f => f a
  | read loc next, f => read loc fun v => (next v).bind f

instance : Monad (Prog L V) where
  pure := ret
  bind := bind

def eval (view : L → Option V) : Prog L V α → α
  | ret a => a
  | read loc next => (next (view loc)).eval view

end Prog

/-- Writer and incarnation behind a value. -/
abbrev Version := ℕ × ℕ

/-- Recorded reads lead from one program to another, each read giving the value that `value`
assigns to its version. -/
inductive Prog.Reaches {L V α : Type} (value : L → Option Version → Option V) :
    Prog L V α → List (L × Option Version) → Prog L V α → Prop
  | refl (p : Prog L V α) : Reaches value p [] p
  | read {loc : L} {next : Option V → Prog L V α} {version : Option Version}
      {reads : List (L × Option Version)} {p : Prog L V α}
      (h : Reaches value (next (value loc version)) reads p) :
      Reaches value (.read loc next) ((loc, version) :: reads) p

namespace Prog.Reaches

variable {L V α : Type} {value value' : L → Option Version → Option V} {p q : Prog L V α}
  {reads : List (L × Option Version)}

lemma snoc {loc : L} {next : Option V → Prog L V α} (h : Reaches value p reads (.read loc next))
    (version : Option Version) :
    Reaches value p (reads ++ [(loc, version)]) (next (value loc version)) := by
  generalize hq : Prog.read loc next = q at h
  induction h with
  | refl p =>
    subst hq
    exact .read (.refl _)
  | read _ ih => exact .read (ih hq)

lemma congr (h : Reaches value p reads q)
    (heq : ∀ r ∈ reads, value r.1 r.2 = value' r.1 r.2) : Reaches value' p reads q := by
  induction h with
  | refl p => exact .refl p
  | @read loc next version reads p _ ih =>
    apply Reaches.read
    rw [← heq (loc, version) (.head _)]
    exact ih fun r hr => heq r (.tail _ hr)

/-- When the reads gave the values of a view, the program does on the view what is left to do. -/
lemma eval_eq {view : L → Option V} (h : Reaches value p reads q)
    (heq : ∀ r ∈ reads, value r.1 r.2 = view r.1) : p.eval view = q.eval view := by
  induction h with
  | refl p => rfl
  | @read loc next version reads p _ ih =>
    have hhead := heq (loc, version) (.head _)
    rw [Prog.eval, ← hhead]
    exact ih fun r hr => heq r (.tail _ hr)

end Prog.Reaches

/-! ### Writes -/

/-- A buffered write of a value that its location accepts. -/
structure Entry {L V : Type} (accepts : L → V → Bool) where
  loc : L
  value : V
  ok : accepts loc value = true

section Writes

variable {L V : Type} [DecidableEq L] {accepts : L → V → Bool}

/-- Value that a list of writes leaves at a location. -/
def lastWrite : List (Entry accepts) → L → Option V
  | [], _ => none
  | e :: es, loc => (lastWrite es loc).or (if e.loc = loc then some e.value else none)

lemma lastWrite_append (es es' : List (Entry accepts)) (loc : L) :
    lastWrite (es ++ es') loc = (lastWrite es' loc).or (lastWrite es loc) := by
  induction es with
  | nil => simp [lastWrite]
  | cons e es ih => simp [lastWrite, ih, Option.or_assoc]

lemma lastWrite_eq_none {es : List (Entry accepts)} {loc : L} (h : ∀ e ∈ es, e.loc ≠ loc) :
    lastWrite es loc = none := by
  induction es with
  | nil => rfl
  | cons e es ih =>
    rw [lastWrite, ih fun e' he' => h e' (.tail _ he'),
      if_neg (h e (.head _))]
    rfl

lemma mem_of_lastWrite {es : List (Entry accepts)} {loc : L} {v : V}
    (h : lastWrite es loc = some v) : accepts loc v = true ∧ loc ∈ es.map (·.loc) := by
  induction es with
  | nil => cases h
  | cons e es ih =>
    rw [lastWrite, Option.or_eq_some_iff] at h
    rcases h with h | ⟨-, h⟩
    · obtain ⟨hok, hmem⟩ := ih h
      exact ⟨hok, .tail _ hmem⟩
    · split_ifs at h with hloc
      cases h
      exact ⟨hloc ▸ e.ok, by simp [hloc]⟩

end Writes

/-! ### The machine -/

/-- A transaction: a program that returns its writes, in order, and a result. -/
abbrev Txn {L V : Type} (accepts : L → V → Bool) (R : Type) :=
  Prog L V (List (Entry accepts) × R)

/-- A transaction in progress: what is left of the program (after its end, the writes that have
not reached the memory yet), the reads with the versions found, the locations written. -/
structure Task {L V : Type} (accepts : L → V → Bool) (R : Type) where
  prog : Txn accepts R
  reads : List (L × Option Version)
  locs : List L

/-- The memory holds, per location and writer, the incarnation and the value of the last write. -/
structure Stm {L V : Type} (accepts : L → V → Bool) (R : Type) where
  mem : L → ℕ → Option (ℕ × V)
  inc : ℕ → ℕ
  task : ℕ → Task accepts R

/-- Latest value at a location written by a transaction below the given number. -/
def latest {L V : Type} (mem : L → ℕ → Option (ℕ × V)) (loc : L) : ℕ → Option (Version × V)
  | 0 => none
  | i + 1 =>
    match mem loc i with
    | some (inc, v) => some ((i, inc), v)
    | none => latest mem loc i

lemma latest_eq_some {L V : Type} {mem : L → ℕ → Option (ℕ × V)} {loc : L} {i : ℕ} {x : Version × V}
    (h : latest mem loc i = some x) : x.1.1 < i ∧ mem loc x.1.1 = some (x.1.2, x.2) := by
  induction i with
  | zero => cases h
  | succ i ih =>
    rw [latest] at h
    split at h
    · rename_i inc v hmem
      cases h
      exact ⟨Nat.lt_succ_self i, hmem⟩
    · obtain ⟨hlt, hmem⟩ := ih h
      exact ⟨Nat.lt_succ_of_lt hlt, hmem⟩

lemma latest_congr {L V : Type} {mem mem' : L → ℕ → Option (ℕ × V)} {loc : L} {i : ℕ}
    (h : ∀ j < i, mem loc j = mem' loc j) : latest mem loc i = latest mem' loc i := by
  induction i with
  | zero => rfl
  | succ i ih =>
    rw [latest, latest, h i (Nat.lt_succ_self i), ih fun j hj => h j (Nat.lt_succ_of_lt hj)]

/-- Locations to which the transactions from `i` on have written nothing. -/
lemma latest_eq_of_none {L V : Type} {mem : L → ℕ → Option (ℕ × V)} {loc : L} {i n : ℕ}
    (hin : i ≤ n) (h : ∀ j, i ≤ j → j < n → mem loc j = none) :
    latest mem loc n = latest mem loc i := by
  induction n, hin using Nat.le_induction with
  | base => rfl
  | succ n hin ih =>
    rw [latest, h n hin (Nat.lt_succ_self n)]
    exact ih fun j hj hjn => h j hj (Nat.lt_succ_of_lt hjn)

namespace Stm

variable {L V R : Type} [DecidableEq L] {accepts : L → V → Bool}

/-- What a read of transaction `i` finds. -/
def found (s : Stm accepts R) (i : ℕ) (loc : L) : Option (Version × V) :=
  (latest s.mem loc i).filter fun x => accepts loc x.2

/-- One atomic action of transaction `i`: a read, or one of the writes after its end. -/
def step (s : Stm accepts R) (i : ℕ) : Stm accepts R :=
  match (s.task i).prog with
  | .read loc next =>
    { s with
      task := Function.update s.task i
        { prog := next ((s.found i loc).map Prod.snd)
          reads := (s.task i).reads ++ [(loc, (s.found i loc).map Prod.fst)]
          locs := (s.task i).locs } }
  | .ret (e :: es, r) =>
    { s with
      mem := fun loc j => if loc = e.loc ∧ j = i then some (s.inc i, e.value) else s.mem loc j
      task := Function.update s.task i
        { prog := .ret (es, r)
          reads := (s.task i).reads
          locs := (s.task i).locs ++ [e.loc] } }
  | .ret ([], _) => s

/-- Let transaction `i`, of which `prog` is left, run to its end. -/
def drainProg (i : ℕ) : Txn accepts R → Stm accepts R → Stm accepts R
  | .read loc next, s => drainProg i (next ((s.found i loc).map Prod.snd)) (s.step i)
  | .ret (es, _), s => es.foldl (fun s _ => s.step i) s

def drain (s : Stm accepts R) (i : ℕ) : Stm accepts R := drainProg i (s.task i).prog s

/-- All transactions at their start. -/
def init (txn : ℕ → Txn accepts R) : Stm accepts R where
  mem _ _ := none
  inc _ := 0
  task i := ⟨txn i, [], []⟩

/-- Delete the writes of transaction `i`. -/
def discard (s : Stm accepts R) (i : ℕ) : Stm accepts R :=
  { s with mem := fun loc j => if j = i ∧ loc ∈ (s.task i).locs then none else s.mem loc j }

/-- Delete the writes of transaction `i` and start it anew under the next incarnation. -/
def restart (txn : ℕ → Txn accepts R) (s : Stm accepts R) (i : ℕ) : Stm accepts R where
  mem := (s.discard i).mem
  inc := Function.update s.inc i (s.inc i + 1)
  task := Function.update s.task i ⟨txn i, [], []⟩

variable (s : Stm accepts R)

/-- The versions read by transaction `i` are still the latest ones. -/
def Valid (i : ℕ) : Prop :=
  ∀ r ∈ (s.task i).reads, (latest s.mem r.1 i).map Prod.fst = r.2

instance (s : Stm accepts R) (i : ℕ) : Decidable (s.Valid i) :=
  inferInstanceAs (Decidable (∀ r ∈ (s.task i).reads, _))

/-- Writes of transaction `i` that have not reached the memory yet. -/
def pending (i : ℕ) : List (Entry accepts) :=
  match (s.task i).prog with
  | .ret (es, _) => es
  | .read .. => []

/-- The values in the memory are accepted by their locations. -/
def Accepted : Prop :=
  ∀ loc i k v, s.mem loc i = some (k, v) → accepts loc v = true

/-- If transaction `i` reads next, it does not read a value that its writer will overwrite. -/
def Untorn (i : ℕ) : Prop :=
  match (s.task i).prog with
  | .read loc _ => ∀ x ∈ latest s.mem loc i, ∀ e ∈ s.pending x.1.1, e.loc ≠ loc
  | .ret _ => True

instance (s : Stm accepts R) (i : ℕ) : Decidable (s.Untorn i) :=
  match hprog : (s.task i).prog with
  | .ret _ => isTrue (by simp [Untorn, hprog])
  | .read loc _ =>
    match hlatest : latest s.mem loc i with
    | none => isTrue (by simp [Untorn, hprog, hlatest])
    | some x =>
      decidable_of_iff (∀ e ∈ s.pending x.1.1, e.loc ≠ loc) (by simp [Untorn, hprog, hlatest])

/-- Transaction `i` has ended and all its writes are in the memory. -/
def Finished (i : ℕ) : Prop := ∃ r, (s.task i).prog = .ret ([], r)

omit [DecidableEq L] in
lemma Accepted.found_eq {s : Stm accepts R} (h : s.Accepted) (i : ℕ) (loc : L) :
    s.found i loc = latest s.mem loc i := by
  rw [found]
  cases hlatest : latest s.mem loc i with
  | none => rfl
  | some x => simp [h _ _ _ _ (latest_eq_some hlatest).2]

/-! ### What a step changes -/

variable {i j : ℕ}

lemma step_of_finished {s : Stm accepts R} (h : s.Finished i) : s.step i = s := by
  obtain ⟨r, hprog⟩ := h
  simp [step, hprog]

variable (s : Stm accepts R)

lemma task_step_of_ne (h : j ≠ i) : (s.step i).task j = s.task j := by
  simp only [step]
  split <;> simp [h]

lemma mem_step_of_ne (h : j ≠ i) (loc : L) : (s.step i).mem loc j = s.mem loc j := by
  simp only [step]
  split <;> simp [h]

lemma inc_step (i : ℕ) : (s.step i).inc = s.inc := by
  simp only [step]
  split <;> rfl

omit [DecidableEq L] in
lemma finished_of_task_eq {s s' : Stm accepts R} (h : s'.task i = s.task i) :
    s'.Finished i ↔ s.Finished i := by
  rw [Finished, Finished, h]

omit [DecidableEq L] in
lemma pending_of_task_eq {s s' : Stm accepts R} (h : s'.task i = s.task i) :
    s'.pending i = s.pending i := by
  rw [pending, pending, h]

variable (txn : ℕ → Txn accepts R)

lemma task_restart_of_ne (s : Stm accepts R) (h : j ≠ i) : (restart txn s i).task j = s.task j := by
  simp [restart, h]

lemma mem_restart_of_ne (s : Stm accepts R) (h : j ≠ i) (loc : L) :
    (restart txn s i).mem loc j = s.mem loc j := by
  simp [restart, discard, h]

lemma mem_foldl_discard (is : List ℕ) (loc : L) (j : ℕ) :
    (is.foldl discard s).mem loc j =
      if j ∈ is ∧ loc ∈ (s.task j).locs then none else s.mem loc j := by
  induction is generalizing s with
  | nil => simp
  | cons i is ih =>
    rw [foldl_cons, ih]
    by_cases hj : j = i
    · subst hj
      by_cases hloc : loc ∈ (s.task j).locs <;> simp [discard, hloc]
    · simp [discard, hj]

/-- Draining is a run of steps. -/
lemma drainProg_eq_run (i : ℕ) (prog : Txn accepts R) (s : Stm accepts R)
    (hprog : (s.task i).prog = prog) :
    ∃ n, drainProg i prog s = run step s (List.replicate n i) ∧
      (drainProg i prog s).Finished i := by
  induction prog generalizing s with
  | read loc next ih =>
    have hnext : ((s.step i).task i).prog = next ((s.found i loc).map Prod.snd) := by
      simp [step, hprog]
    obtain ⟨n, heq, hfin⟩ := ih _ (s.step i) hnext
    exact ⟨n + 1, by rw [drainProg, heq, replicate_succ, run_cons], hfin⟩
  | ret a =>
    obtain ⟨es, r⟩ := a
    simp only [drainProg]
    induction es generalizing s with
    | nil => exact ⟨0, rfl, r, hprog⟩
    | cons e es ih =>
      have hnext : ((s.step i).task i).prog = .ret (es, r) := by
        simp [step, hprog]
      obtain ⟨n, heq, hfin⟩ := ih (s.step i) hnext
      exact ⟨n + 1, by rw [foldl_cons, heq, replicate_succ, run_cons], hfin⟩

lemma drain_eq_run (i : ℕ) :
    ∃ n, s.drain i = run step s (List.replicate n i) ∧ (s.drain i).Finished i :=
  drainProg_eq_run i _ s rfl

/-! ### Waves -/

/-- Let the transactions below `n` run as scheduled, one action at a time, and then to their
ends. -/
def phase (n : ℕ) (sched : List ℕ) (s : Stm accepts R) : Stm accepts R :=
  (List.range n).foldl drain (run step s sched)

/-- Restart some transactions and let those that are to run serially do so. -/
def start (txn : ℕ → Txn accepts R) (needs serial : List ℕ) (s : Stm accepts R) : Stm accepts R :=
  serial.foldl drain (needs.foldl (restart txn) s)

lemma Finished.step {s : Stm accepts R} (h : s.Finished j) : (s.step i).Finished j := by
  by_cases hj : j = i
  · subst hj
    rwa [step_of_finished h]
  · rwa [finished_of_task_eq (task_step_of_ne s hj)]

/-- A finished transaction does nothing any more. -/
lemma Finished.task_run {s : Stm accepts R} (h : s.Finished j) (sched : List ℕ) :
    (run Stm.step s sched).task j = s.task j := by
  induction sched generalizing s with
  | nil => rfl
  | cons i sched ih =>
    rw [run_cons, ih h.step]
    by_cases hj : j = i
    · subst hj
      rw [step_of_finished h]
    · exact task_step_of_ne s hj

lemma Finished.run {s : Stm accepts R} (h : s.Finished j) (sched : List ℕ) :
    (run Stm.step s sched).Finished j := by
  rwa [finished_of_task_eq (h.task_run sched)]

/-- Draining one transaction after the other is a run of steps, after which they are finished. -/
lemma exists_run_foldl_drain (is : List ℕ) :
    ∃ sched, is.foldl drain s = run step s sched ∧ ∀ i ∈ is, (is.foldl drain s).Finished i := by
  induction is generalizing s with
  | nil => exact ⟨[], rfl, by simp⟩
  | cons i is ih =>
    obtain ⟨n, heq, hfin⟩ := drain_eq_run s i
    obtain ⟨sched, heq', hfin'⟩ := ih (s.drain i)
    refine ⟨List.replicate n i ++ sched, ?_, ?_⟩
    · rw [foldl_cons, heq', heq, run_append]
    · intro j hj
      rcases List.mem_cons.mp hj with rfl | hj
      · rw [foldl_cons, heq']
        exact hfin.run sched
      · exact hfin' j hj

lemma phase_eq_run (n : ℕ) (sched : List ℕ) (s : Stm accepts R) :
    ∃ sched', s.phase n sched = run step s sched' ∧ ∀ i < n, (s.phase n sched).Finished i := by
  obtain ⟨rest, heq, hfin⟩ := exists_run_foldl_drain (run step s sched) (List.range n)
  refine ⟨sched ++ rest, ?_, fun i hi => hfin i (List.mem_range.mpr hi)⟩
  rw [phase, heq, run_append]

/-- After the restarts a wave is a run of steps. -/
lemma wave_eq_run (needs serial : List ℕ) (n : ℕ) (sched : List ℕ) (s : Stm accepts R) :
    ∃ sched', (s.start txn needs serial).phase n sched =
        run step (needs.foldl (restart txn) s) sched' ∧
      ∀ i < n, ((s.start txn needs serial).phase n sched).Finished i := by
  obtain ⟨serialSched, hserial, -⟩ := exists_run_foldl_drain (needs.foldl (restart txn) s) serial
  obtain ⟨phaseSched, hphase, hfin⟩ := phase_eq_run n sched (s.start txn needs serial)
  refine ⟨serialSched ++ phaseSched, ?_, hfin⟩
  rw [hphase, start, hserial, run_append]

section Restarts

variable (txn : ℕ → Txn accepts R) (s : Stm accepts R) {needs : List ℕ} {i : ℕ}

lemma task_restarts_of_mem (h : i ∈ needs) :
    (needs.foldl (restart txn) s).task i = ⟨txn i, [], []⟩ := by
  induction needs using List.reverseRecOn with
  | nil => simp at h
  | append_singleton needs j ih =>
    rw [foldl_concat]
    by_cases hj : i = j
    · subst hj
      simp [restart]
    · rw [task_restart_of_ne txn _ hj]
      exact ih (by simpa [hj] using h)

lemma task_restarts_of_not_mem (h : i ∉ needs) :
    (needs.foldl (restart txn) s).task i = s.task i := by
  induction needs using List.reverseRecOn with
  | nil => rfl
  | append_singleton needs j ih =>
    rw [mem_append, mem_singleton, not_or] at h
    rw [foldl_concat, task_restart_of_ne txn _ h.2, ih h.1]

/-- A finished transaction that is not restarted stays as it is. -/
lemma task_wave_of_not_mem {s : Stm accepts R} (h : i ∉ needs) (hfin : s.Finished i)
    (serial : List ℕ) (n : ℕ) (sched : List ℕ) :
    ((s.start txn needs serial).phase n sched).task i = s.task i := by
  obtain ⟨sched', hwave, -⟩ := wave_eq_run txn needs serial n sched s
  have htask := task_restarts_of_not_mem txn s h
  rw [hwave, (((finished_of_task_eq htask).mpr hfin).task_run sched'), htask]

lemma mem_restarts_of_not_mem (h : i ∉ needs) (loc : L) :
    (needs.foldl (restart txn) s).mem loc i = s.mem loc i := by
  induction needs using List.reverseRecOn with
  | nil => rfl
  | append_singleton needs j ih =>
    rw [mem_append, mem_singleton, not_or] at h
    rw [foldl_concat, mem_restart_of_ne txn _ h.2, ih h.1]

end Restarts

/-! ### One more valid transaction with each wave -/

lemma Accepted.step {s : Stm accepts R} (h : s.Accepted) (i : ℕ) : (s.step i).Accepted := by
  intro loc j k v hmem
  simp only [Stm.step] at hmem
  split at hmem
  · exact h loc j k v hmem
  · rename_i e es r hprog
    dsimp only at hmem
    split_ifs at hmem with hloc
    · obtain ⟨rfl, rfl⟩ := Prod.mk.inj (Option.some.inj hmem)
      exact hloc.1 ▸ e.ok
    · exact h loc j k v hmem
  · exact h loc j k v hmem

lemma Accepted.restarts {s : Stm accepts R} (h : s.Accepted) (txn : ℕ → Txn accepts R)
    (needs : List ℕ) : (needs.foldl (restart txn) s).Accepted := by
  induction needs generalizing s with
  | nil => exact h
  | cons i needs ih =>
    refine ih fun loc j k v hmem => h loc j k v ?_
    simp only [restart, discard] at hmem
    split_ifs at hmem
    exact hmem

/-- The transactions up to `k` are valid, and those below `k` finished. -/
structure ValidTo (k : ℕ) (s : Stm accepts R) : Prop where
  accepted : s.Accepted
  finished : ∀ i < k, s.Finished i
  valid : ∀ i ≤ k, s.Valid i

omit [DecidableEq L] in
lemma validTo_init : (init txn).ValidTo 0 where
  accepted loc i k v h := by simp [init] at h
  finished i hi := absurd hi (Nat.not_lt_zero i)
  valid i _ r hr := by simp [init] at hr

/-- What is written above does not matter, and what is read now is the latest. -/
lemma ValidTo.step {k : ℕ} {s : Stm accepts R} (h : s.ValidTo k) (i : ℕ) :
    (s.step i).ValidTo k := by
  by_cases hi : i < k
  · rwa [step_of_finished (h.finished i hi)]
  refine ⟨h.accepted.step i, fun j hj => (h.finished j hj).step, fun j hj r hr => ?_⟩
  have hlatest : latest (s.step i).mem r.1 j = latest s.mem r.1 j := by
    refine latest_congr fun j' hj' => mem_step_of_ne s ?_ r.1
    omega
  rw [hlatest]
  by_cases hji : j = i
  · subst hji
    simp only [Stm.step] at hr
    split at hr
    · simp only [Function.update_self, mem_append, mem_singleton] at hr
      rcases hr with hr | rfl
      · exact h.valid j hj r hr
      · rw [h.accepted.found_eq]
    · simp only [Function.update_self] at hr
      exact h.valid j hj r hr
    · exact h.valid j hj r hr
  · rw [task_step_of_ne s hji] at hr
    exact h.valid j hj r hr

lemma ValidTo.run {k : ℕ} {s : Stm accepts R} (h : s.ValidTo k) (sched : List ℕ) :
    (run Stm.step s sched).ValidTo k := by
  induction sched generalizing s with
  | nil => exact h
  | cons i sched ih => exact ih (h.step i)

/-- Restarting the invalid transactions, all of them at `k` or above, makes `k` valid. -/
lemma validTo_restarts {k : ℕ} {s : Stm accepts R} {needs : List ℕ}
    (haccepted : s.Accepted) (hfin : ∀ i < k, s.Finished i)
    (hvalid : ∀ i ≤ k, i ∉ needs → s.Valid i)
    (hneeds : ∀ i ∈ needs, k ≤ i) : (needs.foldl (restart txn) s).ValidTo k := by
  have hbelow {i : ℕ} (hi : i < k) : i ∉ needs := fun hmem => (hneeds i hmem).not_gt hi
  refine ⟨haccepted.restarts txn needs, fun i hi => ?_, fun i hi r hr => ?_⟩
  · rw [finished_of_task_eq (task_restarts_of_not_mem txn s (hbelow hi))]
    exact hfin i hi
  · by_cases hmem : i ∈ needs
    · simp [task_restarts_of_mem txn s hmem] at hr
    · rw [task_restarts_of_not_mem txn s hmem] at hr
      rw [← hvalid i hi hmem r hr]
      refine congrArg _ (latest_congr fun j hj => ?_)
      exact mem_restarts_of_not_mem txn s (hbelow (hj.trans_le hi)) r.1

/-- After a wave of restarts one more transaction is valid, however it is scheduled. -/
theorem ValidTo.wave {k : ℕ} {s : Stm accepts R} (h : s.ValidTo k) (hfin : ∀ i, s.Finished i)
    (txn : ℕ → Txn accepts R) {needs : List ℕ} (hneeds : ∀ i, i ∈ needs → ¬ s.Valid i)
    (hall : k + 1 ∉ needs → s.Valid (k + 1)) (serial : List ℕ) (n : ℕ) (sched : List ℕ) :
    ((s.start txn needs serial).phase n sched).ValidTo (k + 1) := by
  have hrestarts : (needs.foldl (restart txn) s).ValidTo (k + 1) := by
    apply validTo_restarts txn h.accepted fun i _ => hfin i
    · intro i hi hmem
      rcases Nat.le_succ_iff.mp hi with hi | rfl
      · exact h.valid i hi
      · exact hall hmem
    · intro i hi
      by_contra hlt
      exact hneeds i hi (h.valid i (by omega))
  obtain ⟨sched', hwave, -⟩ := wave_eq_run txn needs serial n sched s
  rw [hwave]
  exact hrestarts.run sched'

end Stm

end Core
