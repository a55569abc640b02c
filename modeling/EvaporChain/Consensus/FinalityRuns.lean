import EvaporChain.Consensus.Finality

/-!
# Runs of the finality tracker

Reports of finalized blocks arrive in any order and again and again, while old records are
pruned. A height that was accepted once keeps its record or lies at or below
`superseded_floor`, so it is not accepted a second time. Whether a height counts as finalized
is read off `latest_finalized` alone, so a report that skips heights makes the skipped ones
finalized as well.
-/

namespace EvaporChain

open Core List

/-- Arguments of a report to the tracker. -/
structure Finalization where
  height : ℕ
  blockHash : Hash
  stateRoot : Hash
  epoch : ℕ
  certificate : CommitCertificate
  signingStake : ℕ
  totalStake : ℕ
  isActive : Option (ℕ → Bool)

inductive TrackerOp
  | observeProposal (height : ℕ)
  | onBlockFinalizedWithActive (f : Finalization)

inductive FinalityStatus
  | finalized (confirmations : ℕ)
  | pending
  | unknown
deriving DecidableEq

namespace FinalityTracker

variable (t : FinalityTracker)

def withMaxRecords (maxRecords : ℕ) : FinalityTracker :=
  { new with maxRecords := maxRecords, maxSeen := maxRecords * 2 }

/-- Below the latest finalized height a missing record is taken for a pruned one. -/
def finalityStatus (height : ℕ) : FinalityStatus :=
  if height = 0 ∨ t.latestFinalized < height then
    if (t.records.lookup height).isSome then .finalized 0 else .unknown
  else .finalized (t.latestFinalized - height)

def report (f : Finalization) : FinalityTracker × Bool :=
  t.onBlockFinalizedWithActive f.height f.blockHash f.stateRoot f.epoch f.certificate
    f.signingStake f.totalStake f.isActive

def step : TrackerOp → FinalityTracker
  | .observeProposal height => t.observeProposal height
  | .onBlockFinalizedWithActive f => (t.report f).1

/-- The report an operation makes a record of. -/
def accepts : TrackerOp → Option Finalization
  | .observeProposal _ => none
  | .onBlockFinalizedWithActive f => if (t.report f).2 then some f else none

/-- Reports accepted in the course of a run, oldest first. -/
def accepted (tr : List (FinalityTracker × TrackerOp)) : List Finalization :=
  tr.filterMap fun x => x.1.accepts x.2

/-- A height no report is accepted for any more. -/
def Settled (height : ℕ) : Prop :=
  (t.records.lookup height).isSome ∨ height ≤ t.supersededFloor

variable {t}

/-! ### One operation -/

lemma observeProposal_frame (t : FinalityTracker) (height : ℕ) :
    ∃ seen, t.observeProposal height = { t with seenProposals := seen } := by
  simp only [observeProposal]
  split_ifs
  · exact ⟨t.seenProposals, rfl⟩
  · exact ⟨_, rfl⟩
  · exact ⟨_, rfl⟩

@[simp] lemma latestFinalized_prune (fuel : ℕ) :
    (prune fuel t).latestFinalized = t.latestFinalized := by
  fun_induction prune fuel t with
  | case2 _ _ _ _ _ ih => exact ih
  | _ => rfl

/-- A pruned height is at most the floor. -/
lemma Settled.prune {height : ℕ} (h : t.Settled height) (fuel : ℕ) :
    (prune fuel t).Settled height := by
  fun_induction FinalityTracker.prune fuel t with
  | case2 t fuel _ oldest _ ih =>
    refine ih ?_
    simp only [Settled, Dict.lookup_erase_apply] at h ⊢
    split_ifs with hold
    · exact .inr (hold ▸ le_max_left _ _)
    · exact h.imp_right fun hle => hle.trans (le_max_right _ _)
  | _ => exact h

lemma isSome_lookup_prune {height : ℕ} (fuel : ℕ)
    (h : ((prune fuel t).records.lookup height).isSome) : (t.records.lookup height).isSome := by
  fun_induction prune fuel t with
  | case2 t fuel _ oldest _ ih =>
    have hkept := ih h
    rw [Dict.lookup_erase_apply] at hkept
    split_ifs at hkept
    · cases hkept
    · exact hkept
  | _ => exact h

/-- What an accepted report does: its height was not settled, and it is now. -/
lemma report_accepted {f : Finalization} (h : (t.report f).2 = true) :
    (1 ≤ f.height → ¬t.Settled f.height) ∧ (t.report f).1.Settled f.height ∧
      (∀ height, t.Settled height → (t.report f).1.Settled height) ∧
      (t.report f).1.latestFinalized = max f.height t.latestFinalized ∧
      ∀ height, ((t.report f).1.records.lookup height).isSome →
        height = f.height ∨ (t.records.lookup height).isSome := by
  simp only [report, onBlockFinalizedWithActive] at h ⊢
  split_ifs at h ⊢ with _ hrecord hfloor
  refine ⟨?_, ?_, ?_, ?_, ?_⟩
  · rintro hpos (hsome | hle)
    · exact hrecord hsome
    · exact hfloor ⟨hpos, hle⟩
  · apply Settled.prune
    simp [Settled]
  · intro height hheight
    apply Settled.prune
    simp only [Settled, Dict.lookup_insert_apply]
    split_ifs
    · exact .inl rfl
    · exact hheight
  · rw [latestFinalized_prune]
  · intro height hheight
    have hbefore := isSome_lookup_prune _ hheight
    rw [Dict.lookup_insert_apply] at hbefore
    split_ifs at hbefore with heq
    · exact .inl heq
    · exact .inr hbefore

lemma report_rejected {f : Finalization} (h : (t.report f).2 = false) : (t.report f).1 = t := by
  simp only [report, onBlockFinalizedWithActive] at h ⊢
  split_ifs at h ⊢ <;> rfl

/-- One operation either leaves the records as they are or accepts a report. -/
lemma step_cases (op : TrackerOp) :
    (t.accepts op = none ∧ (t.step op).records = t.records ∧
      (t.step op).latestFinalized = t.latestFinalized ∧
      (t.step op).supersededFloor = t.supersededFloor) ∨
    ∃ f, op = .onBlockFinalizedWithActive f ∧ t.accepts op = some f ∧ (t.report f).2 = true := by
  cases op with
  | observeProposal height =>
    obtain ⟨seen, hseen⟩ := observeProposal_frame t height
    exact .inl (by simp [accepts, step, hseen])
  | onBlockFinalizedWithActive f =>
    cases hflag : (t.report f).2 with
    | false => exact .inl (by simp [accepts, step, hflag, report_rejected hflag])
    | true => exact .inr ⟨f, rfl, by simp [accepts, hflag], hflag⟩

lemma accepted_concat (tr : List (FinalityTracker × TrackerOp)) (op : TrackerOp) :
    accepted (tr ++ [(t, op)]) = accepted tr ++ (t.accepts op).toList := by
  cases hop : t.accepts op <;> simp [accepted, hop]

def reportAt (height : ℕ) (b : UInt8) : TrackerOp :=
  let hash : Hash := List.Vector.replicate 32 b
  .onBlockFinalizedWithActive
    { height := height
      blockHash := hash
      stateRoot := hash
      epoch := 0
      certificate := ⟨height, 0, hash, [], [0, 1, 2]⟩
      signingStake := 3000
      totalStake := 4000
      isActive := none }

/-! ### Whole runs -/

/-- The tracker against the reports accepted so far: their heights are settled and at most the
latest one, those above zero differ, and only they have records. -/
structure Logged (t : FinalityTracker) (acc : List Finalization) : Prop where
  settled : ∀ f ∈ acc, t.Settled f.height
  distinct : acc.Pairwise fun f g => 1 ≤ g.height → f.height ≠ g.height
  latest : ∀ f ∈ acc, f.height ≤ t.latestFinalized
  recorded : ∀ height, (t.records.lookup height).isSome → ∃ f ∈ acc, f.height = height

variable {acc : List Finalization}

lemma Logged.step (h : Logged t acc) (op : TrackerOp) :
    Logged (t.step op) (acc ++ (t.accepts op).toList) := by
  rcases step_cases (t := t) op with ⟨hnone, hrecords, hlatest, hfloor⟩ | ⟨f, rfl, hsome, hflag⟩
  · rw [hnone, Option.toList_none, append_nil]
    refine ⟨fun f hf => ?_, h.distinct, hlatest ▸ h.latest, hrecords ▸ h.recorded⟩
    rw [Settled, hrecords, hfloor]
    exact h.settled f hf
  · obtain ⟨hfresh, hnew, hold, hlatest, hrecords⟩ := report_accepted hflag
    rw [hsome]
    refine ⟨?_, List.pairwise_append.mpr ⟨h.distinct, pairwise_singleton _ _, ?_⟩, ?_, ?_⟩
    · intro g hg
      rcases List.mem_append.mp hg with hg | hg
      · exact hold _ (h.settled g hg)
      · exact List.mem_singleton.mp hg ▸ hnew
    · intro g hg f' hf' hpos heq
      obtain rfl := List.mem_singleton.mp hf'
      exact hfresh hpos (heq ▸ h.settled g hg)
    · intro g hg
      rw [FinalityTracker.step, hlatest]
      rcases List.mem_append.mp hg with hg | hg
      · exact (h.latest g hg).trans (le_max_right _ _)
      · exact List.mem_singleton.mp hg ▸ le_max_left _ _
    · intro height hheight
      rcases hrecords height hheight with rfl | hbefore
      · exact ⟨f, by simp, rfl⟩
      · obtain ⟨g, hg, heq⟩ := h.recorded height hbefore
        exact ⟨g, mem_append_left _ hg, heq⟩

lemma logged_run (maxRecords : ℕ) (ops : List TrackerOp) :
    Logged (run step (withMaxRecords maxRecords) ops)
      (accepted (trace step (withMaxRecords maxRecords) ops)) := by
  refine run_induction step (P := fun t tr => Logged t (accepted tr)) (G := fun _ _ => True)
    ⟨by simp [accepted], .nil, by simp [accepted], by simp [withMaxRecords, new]⟩ ?_ ops
    fun _ _ => trivial
  intro t tr op h _
  rw [accepted_concat]
  exact h.step op

/-- At every height above zero at most one block is ever accepted as finalized. -/
theorem finalized_at_most_once (maxRecords : ℕ) (ops : List TrackerOp) {height : ℕ}
    (hpos : 1 ≤ height) :
    (((accepted (trace step (withMaxRecords maxRecords) ops)).filter (·.height = height)).map
      fun f => (f.blockHash, f.stateRoot)).length ≤ 1 := by
  have hdistinct := (logged_run maxRecords ops).distinct.filter (·.height = height)
  generalize hl : (accepted _).filter (·.height = height) = l at hdistinct
  have hheight : ∀ f ∈ l, f.height = height := by
    intro f hf
    rw [← hl] at hf
    simpa using of_mem_filter hf
  rcases l with _ | ⟨f, _ | ⟨g, l⟩⟩
  · simp
  · simp
  · have hf := hheight f (by simp)
    have hg := hheight g (by simp)
    have hne := rel_of_pairwise_cons hdistinct (.head _)
    exact absurd (hf.trans hg.symm) (hne (hg ▸ hpos))

/-- The record of height 1 is pruned when height 2 arrives, and a second block of height 1 is
turned away although its proposal was observed. -/
theorem finalized_at_most_once_pruned :
    let ops := [.observeProposal 1, reportAt 1 1, reportAt 2 2, reportAt 1 3]
    ((accepted (trace step (withMaxRecords 1) ops)).map (·.height) = [1, 2] ∧
      (run step (withMaxRecords 1) ops).records.keys = [2]) ∧
    (((accepted (trace step (withMaxRecords 1) ops)).filter (·.height = 1)).map
      fun f => (f.blockHash, f.stateRoot)).length ≤ 1 :=
  ⟨by decide, finalized_at_most_once 1 _ le_rfl⟩

/-- Finalized is reported only for heights a record was accepted for. -/
def Truthful (t : FinalityTracker) (acc : List Finalization) : Prop :=
  ∀ height confirmations, 1 ≤ height → t.finalityStatus height = .finalized confirmations →
    ∃ f ∈ acc, f.height = height

lemma Logged.truthful_iff (h : Logged t acc) :
    Truthful t acc ↔
      ∀ height, 1 ≤ height → height ≤ t.latestFinalized → ∃ f ∈ acc, f.height = height := by
  constructor
  · intro htruth height hpos hle
    refine htruth height (t.latestFinalized - height) hpos ?_
    rw [finalityStatus, if_neg (by omega)]
  · intro hall height confirmations hpos hstatus
    rw [finalityStatus] at hstatus
    split_ifs at hstatus with hbeyond hrecord
    · exact h.recorded height hrecord
    · exact hall height hpos (by omega)

/-- A report that is accepted leaves out no height. -/
def NoGap (t : FinalityTracker) (op : TrackerOp) : Prop :=
  ∀ f, t.accepts op = some f → f.height ≤ t.latestFinalized + 1

/-- The heights up to the latest one stay accepted as long as no report skips one. -/
lemma filled_step {op : TrackerOp} (hgap : NoGap t op)
    (h : ∀ height, 1 ≤ height → height ≤ t.latestFinalized → ∃ f ∈ acc, f.height = height) :
    ∀ height, 1 ≤ height → height ≤ (t.step op).latestFinalized →
      ∃ f ∈ acc ++ (t.accepts op).toList, f.height = height := by
  rcases step_cases (t := t) op with ⟨hnone, -, hlatest, -⟩ | ⟨f, rfl, hsome, hflag⟩
  · rw [hnone, hlatest, Option.toList_none, append_nil]
    exact h
  · obtain ⟨-, -, -, hlatest, -⟩ := report_accepted hflag
    intro height hpos hle
    have hnext := hgap f hsome
    rw [FinalityTracker.step] at hle
    by_cases hbefore : height ≤ t.latestFinalized
    · obtain ⟨g, hg, heq⟩ := h height hpos hbefore
      exact ⟨g, mem_append_left _ hg, heq⟩
    · exact ⟨f, by simp [hsome], by omega⟩

/-- Throughout a run the status is truthful exactly if no accepted report skips a height. -/
theorem finality_truthful_iff (maxRecords : ℕ) (ops : List TrackerOp) :
    (∀ past, past <+: ops → Truthful (run step (withMaxRecords maxRecords) past)
      (accepted (trace step (withMaxRecords maxRecords) past))) ↔
    ∀ x ∈ trace step (withMaxRecords maxRecords) ops, NoGap x.1 x.2 := by
  constructor
  · intro htruth x hx f hf
    obtain ⟨past, rest, rfl, hx₁⟩ := exists_run_of_mem_trace step hx
    -- right after the report the height above the former latest one counts as finalized
    have hpast : past ++ [x.2] <+: past ++ x.2 :: rest := ⟨rest, by simp⟩
    have hafter := (logged_run maxRecords (past ++ [x.2])).truthful_iff.mp (htruth _ hpast)
    have hbefore := logged_run maxRecords past
    rw [run_concat, trace_concat, accepted_concat, ← hx₁] at hafter
    rw [← hx₁] at hbefore
    rcases step_cases (t := x.1) x.2 with ⟨hnone, -⟩ | ⟨f', hop, hsome, hflag⟩
    · rw [hnone] at hf
      cases hf
    · obtain rfl : f' = f := Option.some.inj (hsome.symm.trans hf)
      obtain ⟨-, -, -, hlatest, -⟩ := report_accepted hflag
      by_contra hgap
      have hskipped := hafter (x.1.latestFinalized + 1) (by omega) (by
        rw [hop, FinalityTracker.step]
        omega)
      obtain ⟨g, hg, heq⟩ := hskipped
      rw [hf] at hg
      rcases List.mem_append.mp hg with hg | hg
      · have := hbefore.latest g hg
        omega
      · rw [List.mem_singleton.mp hg] at heq
        omega
  · rintro hgap past ⟨rest, rfl⟩
    refine (logged_run maxRecords past).truthful_iff.mpr ?_
    have hpast : ∀ x ∈ trace step (withMaxRecords maxRecords) past, NoGap x.1 x.2 := by
      intro x hx
      rw [trace_append] at hgap
      exact hgap x (mem_append_left _ hx)
    refine run_induction step (G := NoGap) (P := fun t tr => ∀ height, 1 ≤ height →
      height ≤ t.latestFinalized → ∃ f ∈ accepted tr, f.height = height) ?_ ?_ past hpast
    · intro height hpos hle
      simp only [withMaxRecords, new] at hle
      omega
    · intro t tr op h hop
      rw [accepted_concat]
      exact filled_step hop h

/-- After the first report, for height 2, height 1 counts as finalized too. -/
theorem finality_status_untruthful :
    (run step new [reportAt 2 2]).finalityStatus 1 = .finalized 1 ∧
      (accepted (trace step new [reportAt 2 2])).map (·.height) = [2] := by
  decide

end FinalityTracker

end EvaporChain
