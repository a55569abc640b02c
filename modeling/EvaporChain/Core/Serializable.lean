import EvaporChain.Core.Optimistic

/-!
# Optimistic executions are serializable

The invariant of an execution refers to a history: the final writes of every incarnation. A
recorded read got the value that the history assigns to its version. Restarting a transaction
never touches the history of an incarnation that somebody has read.
-/

namespace Core

namespace Stm

variable {L V R : Type} [DecidableEq L] {accepts : L → V → Bool}

/-- Value of a version at a location, by the history of writes. -/
def valueOf (hist : Version → L → Option V) (loc : L) (version : Option Version) : Option V :=
  version.bind fun v => hist v loc

/-- Writes of a program that returns at once. -/
def freshWrites : Txn accepts R → L → Option V
  | .ret (es, _) => lastWrite es
  | .read .. => fun _ => none

/-- How far transaction `i` got: it is still reading, or it has returned and some of its writes
have reached the memory. -/
inductive Progress (txn : ℕ → Txn accepts R) (hist : Version → L → Option V)
    (s : Stm accepts R) (i : ℕ) : Prop
  | reading {loc : L} {next : Option V → Txn accepts R}
      (hprog : (s.task i).prog = .read loc next) (hlocs : (s.task i).locs = [])
      (hmem : ∀ loc, s.mem loc i = none)
      (hreach : Prog.Reaches (valueOf hist) (txn i) (s.task i).reads (.read loc next))
  | returned {flushed es : List (Entry accepts)} {r : R}
      (hprog : (s.task i).prog = .ret (es, r)) (hlocs : (s.task i).locs = flushed.map (·.loc))
      (hmem : ∀ loc, s.mem loc i = (lastWrite flushed loc).map (s.inc i, ·))
      (hreach : Prog.Reaches (valueOf hist) (txn i) (s.task i).reads (.ret (flushed ++ es, r)))
      (hhist : hist (i, s.inc i) = lastWrite (flushed ++ es))

/-- The invariant of executions. -/
structure Inv (txn : ℕ → Txn accepts R) (hist : Version → L → Option V)
    (s : Stm accepts R) : Prop where
  progress : ∀ i, Progress txn hist s i
  /-- A version that was read belongs to an older incarnation, or its writer has returned. -/
  known : ∀ i, ∀ r ∈ (s.task i).reads, ∀ v, r.2 = some v →
    v.2 < s.inc v.1 ∨ v.2 = s.inc v.1 ∧ ∃ a, (s.task v.1).prog = .ret a

section

variable {txn : ℕ → Txn accepts R} {hist hist' : Version → L → Option V} {s s' : Stm accepts R}
  {i j : ℕ}

/-- A transaction none of whose writes has reached the memory. -/
lemma progress_of_prog {prog : Txn accepts R} (hprog : (s.task i).prog = prog)
    (hlocs : (s.task i).locs = []) (hmem : ∀ loc, s.mem loc i = none)
    (hreach : Prog.Reaches (valueOf hist) (txn i) (s.task i).reads prog)
    (hhist : hist (i, s.inc i) = freshWrites prog) : Progress txn hist s i := by
  cases prog with
  | read loc next => exact .reading hprog hlocs hmem hreach
  | ret a =>
    have hlocs' : (s.task i).locs = ([] : List (Entry accepts)).map (·.loc) := hlocs
    exact .returned hprog hlocs' (by simpa [lastWrite] using hmem) hreach hhist

lemma Progress.congr (h : Progress txn hist s i) (htask : s'.task i = s.task i)
    (hmem : ∀ loc, s'.mem loc i = s.mem loc i) (hinc : s'.inc i = s.inc i)
    (hreads : ∀ r ∈ (s.task i).reads, valueOf hist r.1 r.2 = valueOf hist' r.1 r.2)
    (hown : hist' (i, s.inc i) = hist (i, s.inc i)) : Progress txn hist' s' i := by
  cases h with
  | reading hprog hlocs hnone hreach =>
    refine .reading (htask ▸ hprog) (htask ▸ hlocs) (fun loc => (hmem loc).trans (hnone loc)) ?_
    rw [htask]
    exact hreach.congr hreads
  | returned hprog hlocs hval hreach hhist =>
    refine .returned (htask ▸ hprog) (htask ▸ hlocs) (fun loc => ?_) ?_ ?_
    · rw [hmem, hval, hinc]
    · rw [htask]
      exact hreach.congr hreads
    · rw [hinc, hown, hhist]

/-- What is in the memory was written by a transaction that has returned. -/
lemma Progress.of_mem (h : Progress txn hist s i) {loc : L} {k : ℕ} {v : V}
    (hmem : s.mem loc i = some (k, v)) :
    ∃ flushed es r, (s.task i).prog = .ret (es, r) ∧ k = s.inc i ∧
      lastWrite flushed loc = some v ∧ hist (i, s.inc i) = lastWrite (flushed ++ es) ∧
      (s.task i).locs = flushed.map (·.loc) := by
  cases h with
  | reading _ _ hnone => simp [hnone] at hmem
  | @returned flushed es r hprog hlocs hval _ hhist =>
    rw [hval, Option.map_eq_some_iff] at hmem
    obtain ⟨w, hw, heq⟩ := hmem
    cases heq
    exact ⟨flushed, es, r, hprog, rfl, hw, hhist, hlocs⟩

lemma Inv.accepted (h : Inv txn hist s) : s.Accepted := by
  intro loc i k v hmem
  obtain ⟨flushed, es, r, -, -, hlast, -⟩ := (h.progress i).of_mem hmem
  exact (mem_of_lastWrite hlast).1

/-- The latest value is the one the history assigns to its version, unless its writer is about to
overwrite it. -/
lemma Inv.valueOf_latest (h : Inv txn hist s) {loc : L}
    (huntorn : ∀ x ∈ latest s.mem loc i, ∀ e ∈ s.pending x.1.1, e.loc ≠ loc) :
    valueOf hist loc ((latest s.mem loc i).map Prod.fst) = (latest s.mem loc i).map Prod.snd := by
  cases hlatest : latest s.mem loc i with
  | none => rfl
  | some x =>
    obtain ⟨⟨writer, k⟩, v⟩ := x
    obtain ⟨flushed, es, r, hprog, rfl, hlast, hhist, -⟩ :=
      (h.progress writer).of_mem (latest_eq_some hlatest).2
    have hes : lastWrite es loc = none := by
      apply lastWrite_eq_none
      have hpending := huntorn _ hlatest
      rwa [pending, hprog] at hpending
    show hist (writer, s.inc writer) loc = some v
    rw [hhist, lastWrite_append, hes, hlast]
    rfl

/-- Nobody has read the present incarnation of a transaction that has not returned. -/
lemma Inv.version_ne (h : Inv txn hist s) (hprog : ∀ a, (s.task i).prog ≠ .ret a)
    {r : L × Option Version} (hr : r ∈ (s.task j).reads) : r.2 ≠ some (i, s.inc i) := by
  intro heq
  rcases h.known j r hr _ heq with hlt | ⟨-, a, ha⟩
  · exact lt_irrefl _ hlt
  · exact hprog a ha

omit [DecidableEq L] in
lemma valueOf_update {version : Version} {f : L → Option V} {r : L × Option Version}
    (hne : r.2 ≠ some version) :
    valueOf hist r.1 r.2 = valueOf (Function.update hist version f) r.1 r.2 := by
  obtain ⟨loc, v⟩ := r
  cases v with
  | none => rfl
  | some v =>
    have hv : v ≠ version := fun heq => hne (congrArg some heq)
    simp [valueOf, hv]

/-! ### Steps keep the invariant -/

lemma Inv.step_read (h : Inv txn hist s) {loc : L} {next : Option V → Txn accepts R}
    (hprog : (s.task i).prog = .read loc next) (huntorn : s.Untorn i) :
    ∃ hist', Inv txn hist' (s.step i) := by
  have hnot (a : List (Entry accepts) × R) : (s.task i).prog ≠ .ret a := by simp [hprog]
  have htask : (s.step i).task i = ⟨next ((latest s.mem loc i).map Prod.snd),
      (s.task i).reads ++ [(loc, (latest s.mem loc i).map Prod.fst)], (s.task i).locs⟩ := by
    simp [Stm.step, hprog, h.accepted.found_eq]
  have hmem (l : L) (k : ℕ) : (s.step i).mem l k = s.mem l k := by
    simp [Stm.step, hprog]
  have hvalue : valueOf hist loc ((latest s.mem loc i).map Prod.fst) =
      (latest s.mem loc i).map Prod.snd := by
    rw [Untorn, hprog] at huntorn
    exact h.valueOf_latest huntorn
  -- the version just read is not the reader's own
  have hnew : (latest s.mem loc i).map Prod.fst ≠ some (i, s.inc i) := by
    intro heq
    obtain ⟨x, hx, hver⟩ := Option.map_eq_some_iff.mp heq
    have hlt := (latest_eq_some hx).1
    rw [hver] at hlt
    exact lt_irrefl i hlt
  set hist' := Function.update hist (i, s.inc i)
    (freshWrites (next ((latest s.mem loc i).map Prod.snd))) with hhist'
  refine ⟨hist', fun j => ?_, fun j r hr v hv => ?_⟩
  · by_cases hj : j = i
    · subst hj
      cases h.progress j with
      | returned hret => exact absurd hret (hnot _)
      | reading hread hlocs hnone hreach =>
        obtain ⟨rfl, rfl⟩ := Prog.read.inj (hread.symm.trans hprog)
        apply progress_of_prog (congrArg Task.prog htask)
        · rw [htask, hlocs]
        · exact fun l => (hmem l j).trans (hnone l)
        · rw [htask, ← hvalue]
          refine (hreach.snoc _).congr fun r hr => valueOf_update ?_
          rcases List.mem_append.mp hr with hr | hr
          · exact h.version_ne hnot hr
          · rw [List.mem_singleton] at hr
            exact hr ▸ hnew
        · rw [inc_step, hhist', Function.update_self]
    · refine (h.progress j).congr (task_step_of_ne s hj) (fun l => hmem l j) (by rw [inc_step])
        (fun r hr => valueOf_update (h.version_ne hnot hr)) ?_
      rw [hhist', Function.update_of_ne]
      exact fun heq => hj (Prod.mk.inj heq).1
  · -- the writers of versions that were read have returned, so they are not `i`
    have hret {w : ℕ} (hw : ∃ a, (s.task w).prog = .ret a) :
        ∃ a, ((s.step i).task w).prog = .ret a := by
      obtain ⟨a, ha⟩ := hw
      have hne : w ≠ i := fun heq => hnot a (heq ▸ ha)
      exact ⟨a, by rw [task_step_of_ne s hne, ha]⟩
    rw [inc_step]
    have hold : r ∈ (s.task j).reads → v.2 < s.inc v.1 ∨
        v.2 = s.inc v.1 ∧ ∃ a, ((s.step i).task v.1).prog = .ret a := fun hr =>
      (h.known j r hr v hv).imp_right fun hk => ⟨hk.1, hret hk.2⟩
    by_cases hj : j = i
    · subst hj
      rw [htask, List.mem_append, List.mem_singleton] at hr
      rcases hr with hr | rfl
      · exact hold hr
      · obtain ⟨x, hx, rfl⟩ := Option.map_eq_some_iff.mp hv
        obtain ⟨flushed, es, r, hprogx, hk, -⟩ := (h.progress x.1.1).of_mem (latest_eq_some hx).2
        exact .inr ⟨hk, hret ⟨_, hprogx⟩⟩
    · rw [task_step_of_ne s hj] at hr
      exact hold hr

lemma Inv.step_write (h : Inv txn hist s) {e : Entry accepts} {es : List (Entry accepts)} {r : R}
    (hprog : (s.task i).prog = .ret (e :: es, r)) : Inv txn hist (s.step i) := by
  have htask : (s.step i).task i =
      ⟨.ret (es, r), (s.task i).reads, (s.task i).locs ++ [e.loc]⟩ := by
    simp [Stm.step, hprog]
  have hmem (l : L) : (s.step i).mem l i = if l = e.loc then some (s.inc i, e.value)
      else s.mem l i := by
    simp [Stm.step, hprog]
  have hret {w : ℕ} (hw : ∃ a, (s.task w).prog = .ret a) :
      ∃ a, ((s.step i).task w).prog = .ret a := by
    by_cases hwi : w = i
    · subst hwi
      exact ⟨(es, r), by rw [htask]⟩
    · rwa [task_step_of_ne s hwi]
  refine ⟨fun j => ?_, fun j x hx v hv => ?_⟩
  · by_cases hj : j = i
    · subst hj
      cases h.progress j with
      | reading hread => simp [hprog] at hread
      | @returned flushed es' r' hprog' hlocs hval hreach hhist =>
        obtain ⟨rfl, rfl⟩ := Prod.mk.inj (Prog.ret.inj (hprog'.symm.trans hprog))
        have hsplit : (flushed ++ [e]) ++ es = flushed ++ e :: es := by simp
        refine .returned (congrArg Task.prog htask) (?_ : _ = (flushed ++ [e]).map (·.loc))
          (fun l => ?_) ?_ ?_
        · rw [htask, hlocs]
          simp
        · rw [hmem, inc_step, lastWrite_append]
          by_cases hl : l = e.loc
          · simp [lastWrite, hl]
          · simp [lastWrite, hl, Ne.symm hl, hval]
        · rw [htask, hsplit]
          exact hreach
        · rw [inc_step, hsplit]
          exact hhist
    · exact (h.progress j).congr (task_step_of_ne s hj) (fun l => mem_step_of_ne s hj l)
        (by rw [inc_step]) (fun _ _ => rfl) rfl
  · rw [inc_step]
    have hxs : x ∈ (s.task j).reads := by
      by_cases hj : j = i
      · subst hj
        rwa [htask] at hx
      · rwa [task_step_of_ne s hj] at hx
    exact (h.known j x hxs v hv).imp_right fun hk => ⟨hk.1, hret hk.2⟩

/-- A step keeps the invariant, unless it reads a value about to be overwritten. -/
theorem Inv.step (h : Inv txn hist s) (huntorn : s.Untorn i) :
    ∃ hist', Inv txn hist' (s.step i) := by
  cases hprog : (s.task i).prog with
  | read loc next => exact h.step_read hprog huntorn
  | ret a =>
    obtain ⟨es, r⟩ := a
    cases es with
    | nil =>
      rw [step_of_finished ⟨r, hprog⟩]
      exact ⟨hist, h⟩
    | cons e es => exact ⟨hist, h.step_write hprog⟩

lemma inv_init (txn : ℕ → Txn accepts R) : Inv txn (fun v => freshWrites (txn v.1)) (init txn) where
  progress i := progress_of_prog rfl rfl (fun _ => rfl) (.refl _) rfl
  known i r hr := by simp [init] at hr

/-- The writes of a transaction are all deleted when it restarts. -/
lemma Inv.mem_restart_self (h : Inv txn hist s) (i : ℕ) (loc : L) :
    (Stm.restart txn s i).mem loc i = none := by
  cases hmem : s.mem loc i with
  | none => simp [Stm.restart, discard, hmem]
  | some x =>
    obtain ⟨flushed, es, r, -, -, hlast, -, hlocs⟩ := (h.progress i).of_mem hmem
    have hloc := hlocs ▸ (mem_of_lastWrite hlast).2
    simp [Stm.restart, discard, hloc]

/-- A restart keeps the invariant: nobody has read the new incarnation yet. -/
theorem Inv.restart (h : Inv txn hist s) (i : ℕ) : ∃ hist', Inv txn hist' (restart txn s i) := by
  refine ⟨Function.update hist (i, s.inc i + 1) (freshWrites (txn i)), fun j => ?_,
    fun j r hr v hv => ?_⟩
  · by_cases hj : j = i
    · subst hj
      have htask : (Stm.restart txn s j).task j = ⟨txn j, [], []⟩ := by simp [Stm.restart]
      have hinc : (Stm.restart txn s j).inc j = s.inc j + 1 := by simp [Stm.restart]
      refine progress_of_prog (congrArg Task.prog htask) (congrArg Task.locs htask)
        (h.mem_restart_self j) ?_ ?_
      · rw [htask]
        exact .refl _
      · rw [hinc, Function.update_self]
    · refine (h.progress j).congr (task_restart_of_ne txn s hj) (mem_restart_of_ne txn s hj)
        (by simp [Stm.restart, hj]) (fun r hr => valueOf_update fun heq => ?_) ?_
      · rcases h.known j r hr _ heq with hlt | ⟨hk, -⟩
        · exact absurd hlt (by simp)
        · exact absurd hk (by simp)
      · rw [Function.update_of_ne]
        exact fun heq => hj (Prod.mk.inj heq).1
  · have hj : j ≠ i := by
      rintro rfl
      simp [Stm.restart] at hr
    rw [task_restart_of_ne txn s hj] at hr
    by_cases hw : v.1 = i
    · have hlt : v.2 < s.inc v.1 + 1 := by
        rcases h.known j r hr v hv with hlt | ⟨hk, -⟩
        · exact Nat.lt_succ_of_lt hlt
        · exact hk ▸ lt_add_one _
      exact .inl (by simpa [Stm.restart, hw] using hlt)
    · have hinc : (Stm.restart txn s i).inc v.1 = s.inc v.1 := by simp [Stm.restart, hw]
      rw [hinc, task_restart_of_ne txn s hw]
      exact h.known j r hr v hv

/-! ### Consistent states -/

/-- Some history explains all the reads. -/
def Consistent (txn : ℕ → Txn accepts R) (s : Stm accepts R) : Prop := ∃ hist, Inv txn hist s

lemma consistent_init (txn : ℕ → Txn accepts R) : (init txn).Consistent txn := ⟨_, inv_init txn⟩

lemma Consistent.step (h : s.Consistent txn) (huntorn : s.Untorn i) : (s.step i).Consistent txn :=
  h.elim fun _ hinv => hinv.step huntorn

lemma Consistent.restart (h : s.Consistent txn) (i : ℕ) : (Stm.restart txn s i).Consistent txn :=
  h.elim fun _ hinv => hinv.restart i

lemma Consistent.run (h : s.Consistent txn) {sched : List ℕ}
    (huntorn : ∀ x ∈ trace Stm.step s sched, x.1.Untorn x.2) :
    (run Stm.step s sched).Consistent txn :=
  run_induction Stm.step (P := fun s _ => s.Consistent txn) (G := fun s i => s.Untorn i) h
    (fun _ _ _ hs hun => hs.step hun) sched huntorn

/-- Transaction `j` has written nothing yet, or all it will. -/
def Settled (s : Stm accepts R) (j : ℕ) : Prop := (∀ loc, s.mem loc j = none) ∨ s.pending j = []

omit [DecidableEq L] in
lemma Finished.settled (h : s.Finished j) : s.Settled j := by
  obtain ⟨r, hprog⟩ := h
  exact .inr (by rw [pending, hprog])

omit [DecidableEq L] in
/-- Above settled transactions nothing torn can be read. -/
lemma untorn_of_settled (h : ∀ j < i, s.Settled j) : s.Untorn i := by
  rw [Untorn]
  split
  · intro x hx e he
    obtain ⟨hlt, hmem⟩ := latest_eq_some hx
    rcases h _ hlt with hnone | hpending
    · simp [hnone] at hmem
    · simp [hpending] at he
  · trivial

lemma settled_step_of_ne (h : s.Settled j) (hne : j ≠ i) : (s.step i).Settled j := by
  rw [Settled, pending_of_task_eq (task_step_of_ne s hne)]
  simpa [Settled, mem_step_of_ne s hne] using h

lemma Consistent.drain (h : s.Consistent txn) (hsettled : ∀ j < i, s.Settled j) :
    (s.drain i).Consistent txn := by
  obtain ⟨n, heq, -⟩ := drain_eq_run s i
  rw [heq]
  clear heq
  induction n generalizing s with
  | zero => exact h
  | succ n ih =>
    refine ih (h.step (untorn_of_settled hsettled)) fun j hj => ?_
    exact settled_step_of_ne (hsettled j hj) hj.ne

lemma settled_drain (h : s.Settled j) (i : ℕ) : (s.drain i).Settled j := by
  obtain ⟨n, heq, hfin⟩ := drain_eq_run s i
  by_cases hne : j = i
  · exact hne ▸ hfin.settled
  · rw [heq]
    clear heq hfin
    induction n generalizing s with
    | zero => exact h
    | succ n ih => exact ih (settled_step_of_ne h hne)

/-- Serial execution of settled transactions. -/
lemma Consistent.drains (h : s.Consistent txn) (hsettled : ∀ j, s.Settled j) (serial : List ℕ) :
    (serial.foldl Stm.drain s).Consistent txn := by
  induction serial generalizing s with
  | nil => exact h
  | cons i serial ih =>
    exact ih (h.drain fun j _ => hsettled j) fun j => settled_drain (hsettled j) i

/-- What is left after the scheduled actions is drained in order, so that nothing torn is read. -/
lemma Consistent.phase (h : s.Consistent txn) (n : ℕ) {sched : List ℕ}
    (huntorn : ∀ x ∈ trace Stm.step s sched, x.1.Untorn x.2) :
    (s.phase n sched).Consistent txn := by
  rw [Stm.phase]
  induction n with
  | zero => exact h.run huntorn
  | succ n ih =>
    rw [List.range_succ, List.foldl_concat]
    obtain ⟨-, -, hfin⟩ := phase_eq_run n sched s
    exact ih.drain fun j hj => (hfin j hj).settled

/-- Restarting finished transactions leaves everything settled. -/
lemma Consistent.settled_restarts (h : s.Consistent txn) (hsettled : ∀ j, s.Settled j)
    (needs : List ℕ) : (needs.foldl (Stm.restart txn) s).Consistent txn ∧
      ∀ j, (needs.foldl (Stm.restart txn) s).Settled j := by
  induction needs generalizing s with
  | nil => exact ⟨h, hsettled⟩
  | cons i needs ih =>
    refine ih (h.restart i) fun j => ?_
    by_cases hj : j = i
    · obtain ⟨hist, hinv⟩ := h
      exact .inl (hj ▸ hinv.mem_restart_self i)
    · rw [Settled, pending_of_task_eq (task_restart_of_ne txn s hj)]
      simpa [Settled, mem_restart_of_ne txn s hj] using hsettled j

lemma Consistent.start (h : s.Consistent txn) (hfin : ∀ i, s.Finished i) (needs serial : List ℕ) :
    (s.start txn needs serial).Consistent txn := by
  obtain ⟨hrestarts, hsettled⟩ := h.settled_restarts (fun j => (hfin j).settled) needs
  exact hrestarts.drains hsettled serial

/-! ### Serial execution -/

/-- Values after running the transactions below `i` one after the other. -/
def serialView (txn : ℕ → Txn accepts R) : ℕ → L → Option V
  | 0, _ => none
  | i + 1, loc =>
    (lastWrite ((txn i).eval (serialView txn i)).1 loc).or (serialView txn i loc)

/-- Transaction `i` left what it leaves in serial execution. -/
structure Serial (txn : ℕ → Txn accepts R) (s : Stm accepts R) (i : ℕ) : Prop where
  prog : (s.task i).prog = .ret ([], ((txn i).eval (serialView txn i)).2)
  locs : (s.task i).locs = ((txn i).eval (serialView txn i)).1.map (·.loc)
  mem : ∀ loc, s.mem loc i = (lastWrite ((txn i).eval (serialView txn i)).1 loc).map (s.inc i, ·)

lemma latest_of_serial (h : ∀ j < i, s.Serial txn j) (loc : L) :
    (latest s.mem loc i).map Prod.snd = serialView txn i loc := by
  induction i with
  | zero => rfl
  | succ i ih =>
    rw [latest, serialView, (h i (Nat.lt_succ_self i)).mem]
    cases lastWrite ((txn i).eval (serialView txn i)).1 loc with
    | none => exact ih fun j hj => h j (Nat.lt_succ_of_lt hj)
    | some v => rfl

/-- In a consistent state in which the first `n` transactions are finished and valid, they left
what they leave in serial execution. -/
theorem Consistent.serial (h : s.Consistent txn) {n : ℕ} (hfin : ∀ i < n, s.Finished i)
    (hvalid : ∀ i < n, s.Valid i) (i : ℕ) (hi : i < n) : s.Serial txn i := by
  obtain ⟨hist, hinv⟩ := h
  induction i using Nat.strong_induction_on with
  | _ i ih =>
    have hview := latest_of_serial fun j hj => ih j hj (hj.trans hi)
    -- a read that is still the latest one got the value of serial execution
    have hreads : ∀ r ∈ (s.task i).reads, valueOf hist r.1 r.2 = serialView txn i r.1 := by
      intro r hr
      rw [← hvalid i hi r hr, ← hview]
      refine hinv.valueOf_latest fun x hx e he => ?_
      obtain ⟨r', hprog⟩ := hfin x.1.1 ((latest_eq_some hx).1.trans hi)
      simp [pending, hprog] at he
    obtain ⟨r, hprog⟩ := hfin i hi
    cases hinv.progress i with
    | reading hread => simp [hprog] at hread
    | @returned flushed es r' hprog' hlocs hmem hreach =>
      obtain ⟨rfl, rfl⟩ := Prod.mk.inj (Prog.ret.inj (hprog'.symm.trans hprog))
      have heval : (txn i).eval (serialView txn i) = (flushed, r') := by
        rw [hreach.eval_eq hreads, List.append_nil, Prog.eval]
      exact ⟨by rw [hprog, heval], by rw [hlocs, heval], by rw [heval]; exact hmem⟩

end

end Stm

end Core
