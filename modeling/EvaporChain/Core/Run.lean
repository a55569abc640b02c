import Mathlib

/-!
# Runs of a labelled transition function

`run step s es` folds the events `es` over the state `s`; `trace step s es` lists, in order,
every event together with the state it was applied to. Properties of whole runs come from
`run_induction`: one step keeps the property, so every run does. A guard on the steps is a
predicate on the pairs of the trace.
-/

namespace Core

open List

variable {S E : Type*} (step : S → E → S)

/-- State reached from `s` by the events `es`. -/
def run (s : S) (es : List E) : S := es.foldl step s

/-- Events of a run, each with the state it was applied to. -/
def trace : S → List E → List (S × E)
  | _, [] => []
  | s, e :: es => (s, e) :: trace (step s e) es

variable (s : S)

@[simp] lemma run_nil : run step s [] = s := rfl

@[simp] lemma run_cons (e : E) (es : List E) : run step s (e :: es) = run step (step s e) es := rfl

lemma run_append (es fs : List E) : run step s (es ++ fs) = run step (run step s es) fs :=
  foldl_append

variable (es : List E)

lemma run_concat (e : E) : run step s (es ++ [e]) = step (run step s es) e := by
  simp [run_append]

lemma trace_append (es fs : List E) :
    trace step s (es ++ fs) = trace step s es ++ trace step (run step s es) fs := by
  induction es generalizing s with
  | nil => rfl
  | cons e es ih => simp [trace, ih]

lemma trace_concat (e : E) :
    trace step s (es ++ [e]) = trace step s es ++ [(run step s es, e)] := by
  simp [trace_append, trace]

lemma map_snd_trace : (trace step s es).map Prod.snd = es := by
  induction es generalizing s with
  | nil => rfl
  | cons e es ih => simp [trace, ih]

lemma snd_mem_of_mem_trace {s : S} {es : List E} {x : S × E} (h : x ∈ trace step s es) :
    x.2 ∈ es := by
  rw [← map_snd_trace step s es]
  exact mem_map_of_mem h

variable {G : S → E → Prop}

/-- Induction over runs, from the first event to the last. `P` may speak about the state and
about the trace that led to it; `G` is a guard met by every step of the run. -/
theorem run_induction {P : S → List (S × E) → Prop} {s : S} (init : P s [])
    (next : ∀ t h e, P t h → G t e → P (step t e) (h ++ [(t, e)])) (es : List E)
    (guard : ∀ x ∈ trace step s es, G x.1 x.2) : P (run step s es) (trace step s es) := by
  induction es using List.reverseRecOn with
  | nil => exact init
  | append_singleton es e ih =>
    rw [trace_concat] at guard
    rw [run_concat, trace_concat]
    refine next _ _ e (ih fun x hx => guard x ?_) (guard (run step s es, e) ?_)
    · exact mem_append_left _ hx
    · exact mem_append_right _ (.head _)

/-- Bookkeeping over a run. If every step takes `out` from `level` and adds `into` to it at most,
then so does a run with the sums. -/
theorem run_accounting (level : S → ℕ) {out into : S → E → ℕ}
    (next : ∀ s e, G s e → out s e + level (step s e) ≤ level s + into s e) (s : S) (es : List E)
    (guard : ∀ x ∈ trace step s es, G x.1 x.2) :
    ((trace step s es).map fun x => out x.1 x.2).sum + level (run step s es) ≤
      level s + ((trace step s es).map fun x => into x.1 x.2).sum := by
  induction es generalizing s with
  | nil => simp [trace]
  | cons e es ih =>
    have hstep := next s e (guard (s, e) (.head _))
    have hrest := ih (step s e) fun x hx => guard x (.tail _ hx)
    simp only [trace, map_cons, sum_cons, run_cons]
    omega

/-- What every step keeps, a fold keeps. -/
lemma foldl_keeps {β : Type*} {g : S → β} (h : ∀ s e, g (step s e) = g s) (es : List E) (s : S) :
    g (es.foldl step s) = g s := by
  induction es generalizing s with
  | nil => rfl
  | cons e es ih => rw [foldl_cons, ih, h]

lemma foldl_fixed {s : S} {es : List E} (h : ∀ e ∈ es, step s e = s) : es.foldl step s = s := by
  induction es with
  | nil => rfl
  | cons e es ih =>
    rw [foldl_cons, h e (.head _)]
    exact ih fun e' he' => h e' (.tail _ he')

/-- Every step of a run is a step from a state the run reaches by a shorter run. -/
lemma exists_run_of_mem_trace {s : S} {es : List E} {x : S × E} (h : x ∈ trace step s es) :
    ∃ es₁ es₂, es = es₁ ++ x.2 :: es₂ ∧ x.1 = run step s es₁ := by
  induction es generalizing s with
  | nil => simp [trace] at h
  | cons e es ih =>
    rcases List.mem_cons.mp h with rfl | h
    · exact ⟨[], es, rfl, rfl⟩
    · obtain ⟨es₁, es₂, rfl, hx⟩ := ih h
      exact ⟨e :: es₁, es₂, rfl, hx⟩

/-- If every step appends one entry to a log, a run appends one for each event. -/
lemma run_log {O : Type*} (log : S → List O) {R : E → O → Prop}
    (next : ∀ s e, G s e → ∃ o, log (step s e) = log s ++ [o] ∧ R e o) (s : S) (es : List E)
    (guard : ∀ x ∈ trace step s es, G x.1 x.2) :
    ∃ os, log (run step s es) = log s ++ os ∧ List.Forall₂ R es os := by
  induction es generalizing s with
  | nil => exact ⟨[], (append_nil _).symm, .nil⟩
  | cons e es ih =>
    obtain ⟨o, ho, hR⟩ := next s e (guard (s, e) (.head _))
    obtain ⟨os, hos, hall⟩ := ih (step s e) fun x hx => guard x (.tail _ hx)
    refine ⟨o :: os, ?_, .cons hR hall⟩
    rw [run_cons, hos, ho, append_assoc, singleton_append]

/-! ### Steps that may fail -/

section

variable {F : Type*} (attempt : S → E → Except F S)

/-- A step that stays where it is when it fails. -/
def orStay (s : S) (e : E) : S :=
  match attempt s e with
  | .ok s' => s'
  | .error _ => s

/-- A fold of steps that may fail is a run of steps that do not. -/
lemma foldlM_eq_run {s s' : S} {es : List E} (h : es.foldlM attempt s = .ok s') :
    run (orStay attempt) s es = s' ∧
      ∀ x ∈ trace (orStay attempt) s es, attempt x.1 x.2 = .ok (orStay attempt x.1 x.2) := by
  induction es generalizing s with
  | nil =>
    cases h
    exact ⟨rfl, by simp [trace]⟩
  | cons e es ih =>
    rw [foldlM_cons] at h
    cases hstep : attempt s e with
    | error f =>
      rw [hstep] at h
      cases h
    | ok t =>
      rw [hstep] at h
      have hstay : orStay attempt s e = t := by rw [orStay, hstep]
      obtain ⟨hrun, htrace⟩ := ih h
      refine ⟨?_, ?_⟩
      · rw [run_cons, hstay, hrun]
      · intro x hx
        rw [trace, hstay] at hx
        rcases List.mem_cons.mp hx with rfl | hx
        · rw [hstep, hstay]
        · exact htrace x hx

lemma exists_of_map_eq_ok {ε α β : Type*} {f : α → β} {x : Except ε α} {b : β}
    (h : x.map f = .ok b) : ∃ a, x = .ok a ∧ f a = b := by
  cases x with
  | error e => cases h
  | ok a => exact ⟨a, rfl, Except.ok.inj h⟩

/-- A fold of steps that may fail succeeds if and only if each of them meets the condition for
it. -/
lemma exists_foldlM_eq_ok {P : S → E → Prop} {s : S} {es : List E}
    (hP : ∀ s, ∀ e ∈ es, (∃ s', attempt s e = .ok s') ↔ P s e) :
    (∃ s', es.foldlM attempt s = .ok s') ↔ ∀ x ∈ trace (orStay attempt) s es, P x.1 x.2 := by
  constructor
  · rintro ⟨s', h⟩ x hx
    exact (hP x.1 x.2 (snd_mem_of_mem_trace _ hx)).mp ⟨_, (foldlM_eq_run attempt h).2 x hx⟩
  · intro h
    induction es generalizing s with
    | nil => exact ⟨s, rfl⟩
    | cons e es ih =>
      obtain ⟨t, ht⟩ := (hP s e (.head _)).mpr (h (s, e) (.head _))
      have hstay : orStay attempt s e = t := by rw [orStay, ht]
      obtain ⟨s', hs'⟩ := ih (fun s e he => hP s e (.tail _ he)) fun x hx =>
        h x (.tail _ (hstay ▸ hx))
      refine ⟨s', ?_⟩
      rw [foldlM_cons, ht]
      exact hs'

end

end Core
