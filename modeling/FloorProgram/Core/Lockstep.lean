import FloorProgram.Core.Checked
import FloorProgram.Core.Transition

/-!
# A system on another representation

Two transition systems with the same labels that do the same on two representations of a state, step
by step.  The finer one may need an invariant of its own, and it may rely on its abstraction being
reachable.

* `Lockstep` — every step of one is a step of the other, in both directions.
* `Lockstep.reachable_iff` — then the same states are reached.
* `ok_iff_of_map_eq` — how to get the steps from an equation between two programs.
-/

namespace Transition

variable {σ τ ℓ : Type}

/-- The system on `σ` does on its representation what the one on `τ` does on the states `abs`. -/
structure Lockstep (init : σ → Prop) (step : σ → ℓ → σ → Prop) (init' : τ → Prop)
    (step' : τ → ℓ → τ → Prop) (abs : σ → τ) (J : σ → Prop) : Prop where
  start : ∀ s, init s → init' (abs s) ∧ J s
  start_lift : ∀ t, init' t → ∃ s, init s ∧ abs s = t
  forth : ∀ s a s', Reachable init' step' (abs s) → J s → step s a s' →
    step' (abs s) a (abs s') ∧ J s'
  back : ∀ s a t, Reachable init' step' (abs s) → J s → step' (abs s) a t →
    ∃ s', step s a s' ∧ abs s' = t

variable {init : σ → Prop} {step : σ → ℓ → σ → Prop} {init' : τ → Prop} {step' : τ → ℓ → τ → Prop}
  {abs : σ → τ} {J : σ → Prop} {s : σ} {t : τ}

/-- The finer system runs through states of the other one, and keeps its invariant. -/
theorem Lockstep.reachable (hl : Lockstep init step init' step' abs J)
    (hs : Reachable init step s) : Reachable init' step' (abs s) ∧ J s := by
  induction hs with
  | start h =>
      obtain ⟨hinit, hJ⟩ := hl.start _ h
      exact ⟨.start hinit, hJ⟩
  | step _ hst ih =>
      obtain ⟨hstep, hJ⟩ := hl.forth _ _ _ ih.1 ih.2 hst
      exact ⟨ih.1.step hstep, hJ⟩

/-- Every state of the other system is represented. -/
theorem Lockstep.lift (hl : Lockstep init step init' step' abs J) (ht : Reachable init' step' t) :
    ∃ s, Reachable init step s ∧ abs s = t := by
  induction ht with
  | start h =>
      obtain ⟨s, hs, rfl⟩ := hl.start_lift _ h
      exact ⟨s, .start hs, rfl⟩
  | step _ hst ih =>
      obtain ⟨s, hs, rfl⟩ := ih
      obtain ⟨hr, hJ⟩ := hl.reachable hs
      obtain ⟨s', hst', rfl⟩ := hl.back _ _ _ hr hJ hst
      exact ⟨s', hs.step hst', rfl⟩

/-- **The same states are reached.** -/
theorem Lockstep.reachable_iff (hl : Lockstep init step init' step' abs J) :
    Reachable init' step' t ↔ ∃ s, Reachable init step s ∧ abs s = t := by
  refine ⟨hl.lift, ?_⟩
  rintro ⟨s, hs, rfl⟩
  exact (hl.reachable hs).1

end Transition

namespace Checked

variable {ε σ τ ρ : Type} {x : Except ε (σ × ρ)} {y : Except ε (τ × ρ)} {abs : σ → τ} {r : ρ}

/-- A program that does the same on another representation succeeds with the same results. -/
lemma ok_iff_of_map_eq (h : (fun p => (abs p.1, p.2)) <$> x = y) {t : τ} :
    y = .ok (t, r) ↔ ∃ s, x = .ok (s, r) ∧ abs s = t := by
  subst h
  cases x with
  | error e => simp
  | ok p =>
      obtain ⟨s, r'⟩ := p
      constructor
      · intro h
        obtain ⟨rfl, rfl⟩ := Prod.mk.inj (Except.ok.inj h)
        exact ⟨s, rfl, rfl⟩
      · rintro ⟨s', h, rfl⟩
        obtain ⟨rfl, rfl⟩ := Prod.mk.inj (Except.ok.inj h)
        rfl

end Checked
