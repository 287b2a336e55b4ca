import Mathlib.Tactic.Common

/-!
# Labelled transition systems

The generic part of reasoning about runs: a step relation `step s ℓ t`, the states reachable from
an initial set, and traces that record every step taken.

* `Reachable.invariant` — a property that holds initially and is kept by every step holds in every
  reachable state.
* `Trace` — a run with its history, newest entry first.  `Trace.invariant` carries a property that
  depends on the history, `Trace.reachable` forgets it.
* `Trace.last_change` — either a run never changed `f`, or one entry set the last value, and it
  stayed.
-/

namespace Transition

variable {σ ℓ : Type}

/-- One entry of a history: the state before, the label, the state after. -/
structure Entry (σ ℓ : Type) where
  pre : σ
  label : ℓ
  post : σ

/-- The states a system can get into. -/
inductive Reachable (init : σ → Prop) (step : σ → ℓ → σ → Prop) : σ → Prop
  | start {s : σ} : init s → Reachable init step s
  | step {s t : σ} {a : ℓ} : Reachable init step s → step s a t → Reachable init step t

/-- A run from `s` to `t` with its history, newest entry first. -/
inductive Trace (step : σ → ℓ → σ → Prop) : σ → List (Entry σ ℓ) → σ → Prop
  | nil (s : σ) : Trace step s [] s
  | cons {s t u : σ} {a : ℓ} {h : List (Entry σ ℓ)} :
      Trace step s h t → step t a u → Trace step s (⟨t, a, u⟩ :: h) u

variable {init : σ → Prop} {step : σ → ℓ → σ → Prop} {s t u : σ} {h : List (Entry σ ℓ)}

/-- **The invariant rule.** -/
theorem Reachable.invariant {P : σ → Prop} (hinit : ∀ s, init s → P s)
    (hstep : ∀ s a t, Reachable init step s → P s → step s a t → P t)
    (hs : Reachable init step s) : P s := by
  induction hs with
  | start h => exact hinit _ h
  | step hr hst ih => exact hstep _ _ _ hr ih hst

/-- **The invariant rule for histories.** -/
theorem Trace.invariant {P : List (Entry σ ℓ) → σ → Prop} (hnil : P [] s)
    (hcons : ∀ h t a u, Trace step s h t → P h t → step t a u → P (⟨t, a, u⟩ :: h) u)
    (ht : Trace step s h t) : P h t := by
  induction ht with
  | nil => exact hnil
  | cons htr hst ih => exact hcons _ _ _ _ htr ih hst

/-- The newest entry of a history is its last step. -/
lemma Trace.of_cons {e : Entry σ ℓ} (ht : Trace step s (e :: h) t) :
    Trace step s h e.pre ∧ step e.pre e.label e.post ∧ e.post = t := by
  cases ht with
  | cons htr hst => exact ⟨htr, hst, rfl⟩

/-- A run can be cut at any point of its history. -/
lemma Trace.of_append : ∀ {later earlier : List (Entry σ ℓ)} {t : σ},
    Trace step s (later ++ earlier) t → ∃ u, Trace step s earlier u ∧ Trace step u later t
  | [], _, t, ht => ⟨t, ht, .nil t⟩
  | e :: later, earlier, t, ht => by
      obtain ⟨hpre, hst, rfl⟩ := ht.of_cons
      obtain ⟨u, hearlier, hlater⟩ := Trace.of_append hpre
      exact ⟨u, hearlier, hlater.cons hst⟩

lemma Trace.reachable (ht : Trace step s h t) (hs : Reachable init step s) :
    Reachable init step t := by
  induction ht with
  | nil => exact hs
  | cons _ hst ih => exact ih.step hst

/-- Either nothing changed `f`, or there is the entry that changed it last. -/
theorem Trace.last_change {β : Type} [DecidableEq β] (f : σ → β) (ht : Trace step s h t) :
    (f t = f s ∧ ∀ x ∈ h, f x.post = f s) ∨
    ∃ later e earlier, h = later ++ e :: earlier ∧ Trace step s earlier e.pre ∧
      step e.pre e.label e.post ∧ f e.pre ≠ f t ∧ f e.post = f t ∧ ∀ x ∈ later, f x.post = f t := by
  induction ht with
  | nil => exact .inl ⟨rfl, by simp⟩
  | @cons t u a h htr hst ih =>
      by_cases hsame : f t = f u
      · rcases ih with ⟨hkept, hall⟩ |
          ⟨later, e, earlier, rfl, hearlier, hstep, hpre, hpost, hlater⟩
        · have hu : f u = f s := hsame.symm.trans hkept
          exact .inl ⟨hu, List.forall_mem_cons.mpr ⟨hu, hall⟩⟩
        · refine .inr ⟨⟨t, a, u⟩ :: later, e, earlier, rfl, hearlier, hstep, hsame ▸ hpre,
            hpost.trans hsame, ?_⟩
          intro x hx
          rcases List.mem_cons.mp hx with rfl | hx
          · rfl
          · exact (hlater x hx).trans hsame
      · exact .inr ⟨[], ⟨t, a, u⟩, h, rfl, htr, hst, hsame, rfl, by simp⟩

end Transition
