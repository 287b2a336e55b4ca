import FloorProgram.Core.Transition
import Mathlib.Data.List.Forall2
import Mathlib.Algebra.BigOperators.Group.List.Basic

/-!
# Forward simulations

Two transition systems, a detailed one and an abstract one, and an abstraction function between
their states.  One step of the detailed system may be several steps of the abstract one, or none;
which, is for the relation `shows` to say.

* `Steps` — finitely many steps, by the list of their labels, oldest first.
* `Simulates` — initial states go to initial states, and every step from a reachable state is
  matched by abstract steps with labels the step shows.
* `Simulates.run` — then every run is matched by an abstract run, label by label.
* `Steps.invariant`, `Steps.sum_eq` — what a whole run of the abstract system preserves, and what it
  adds up to.
-/

namespace Transition

variable {σ τ ℓ m : Type}

/-- A sequence of steps from `s` to `t`, oldest label first. -/
inductive Steps (step : σ → ℓ → σ → Prop) : σ → List ℓ → σ → Prop
  | nil (s : σ) : Steps step s [] s
  | cons {s t u : σ} {a : ℓ} {l : List ℓ} : step s a t → Steps step t l u → Steps step s (a :: l) u

section Steps

variable {init : σ → Prop} {step : σ → ℓ → σ → Prop} {s t u : σ} {a : ℓ} {l l' : List ℓ}

lemma Steps.single (h : step s a t) : Steps step s [a] t := .cons h (.nil t)

lemma Steps.append (h : Steps step s l t) (h' : Steps step t l' u) : Steps step s (l ++ l') u := by
  induction h with
  | nil => exact h'
  | cons hst _ ih => exact .cons hst (ih h')

/-- What every step of the list keeps, the list keeps. -/
theorem Steps.invariant {P : σ → Prop} (hstep : ∀ a ∈ l, ∀ s t, P s → step s a t → P t)
    (h : Steps step s l t) (hs : P s) : P t := by
  induction h with
  | nil => exact hs
  | cons hst _ ih =>
      exact ih (fun b hb => hstep b (List.mem_cons_of_mem _ hb))
        (hstep _ List.mem_cons_self _ _ hs hst)

/-- **Accounts add up.**  If every step takes `taken` out of a measure of the state and puts `given`
into it, so do the totals of the run. -/
theorem Steps.sum_eq {M : Type} [AddCommMonoid M] {f : σ → M} {given taken : ℓ → M}
    (hstep : ∀ a ∈ l, ∀ s t, step s a t → f t + taken a = f s + given a)
    (h : Steps step s l t) : f t + (l.map taken).sum = f s + (l.map given).sum := by
  induction h with
  | nil => rfl
  | @cons s t u a l hst _ ih =>
      have hhead := hstep a List.mem_cons_self _ _ hst
      have htail := ih fun b hb => hstep b (List.mem_cons_of_mem _ hb)
      rw [List.map_cons, List.sum_cons, List.map_cons, List.sum_cons]
      calc f u + (taken a + (l.map taken).sum)
          = f u + (l.map taken).sum + taken a := by rw [add_comm (taken a), ← add_assoc]
        _ = f t + taken a + (l.map given).sum := by rw [htail]; exact add_right_comm _ _ _
        _ = f s + (given a + (l.map given).sum) := by rw [hhead, add_assoc]

end Steps

/-- A forward simulation.  `shows e l` says that the abstract steps `l` are what can be seen of the
detailed step `e`. -/
structure Simulates (init : σ → Prop) (step : σ → ℓ → σ → Prop) (init' : τ → Prop)
    (step' : τ → m → τ → Prop) (abs : σ → τ) (shows : Entry σ ℓ → List m → Prop) : Prop where
  start : ∀ s, init s → init' (abs s)
  step : ∀ s a t, Reachable init step s → step s a t →
    ∃ l, shows ⟨s, a, t⟩ l ∧ Steps step' (abs s) l (abs t)

section Simulates

variable {init : σ → Prop} {step : σ → ℓ → σ → Prop} {init' : τ → Prop} {step' : τ → m → τ → Prop}
  {abs : σ → τ} {shows : Entry σ ℓ → List m → Prop} {s t : σ} {h : List (Entry σ ℓ)}

/-- **Runs are simulated.**  A run from a reachable state is an abstract run, cut into pieces that
are shown by the steps of the run, one for each. -/
theorem Simulates.run (hsim : Simulates init step init' step' abs shows)
    (hs : Reachable init step s) (ht : Trace step s h t) :
    ∃ ls, List.Forall₂ shows h.reverse ls ∧ Steps step' (abs s) ls.flatten (abs t) := by
  induction ht with
  | nil => exact ⟨[], .nil, .nil _⟩
  | @cons t u a h htr hst ih =>
      obtain ⟨ls, hshows, hrun⟩ := ih
      obtain ⟨l, hl, hsteps⟩ := hsim.step t a u (htr.reachable hs) hst
      refine ⟨ls ++ [l], ?_, ?_⟩
      · rw [List.reverse_cons]
        exact List.rel_append hshows (.cons hl .nil)
      · rw [List.flatten_append, List.flatten_singleton]
        exact hrun.append hsteps

end Simulates

end Transition
