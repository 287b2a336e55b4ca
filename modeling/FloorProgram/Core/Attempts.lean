import FloorProgram.Core.Checked

/-!
# Runs in which operations may fail

A failed operation changes nothing, and the run goes on.  Two systems show the same in such a run if
every operation fails in both with the same error, or succeeds in both with the same result and
leads to related states.

* `tryAll` — what every operation returned, and the last state.
* `Matches` — an operation has the same outcome in two systems, up to a relation of the states.
* `tryAll_matches` — and so has a run.
-/

namespace Checked

variable {ε σ τ ι ρ : Type}

/-- Try an operation: what it returned, and the state afterwards. -/
def tryOne (run : ι → σ → Except ε (σ × ρ)) (a : ι) (s : σ) : Except ε ρ × σ :=
  match run a s with
  | .ok (t, x) => (.ok x, t)
  | .error e => (.error e, s)

/-- Try operations one after the other. -/
def tryAll (run : ι → σ → Except ε (σ × ρ)) : List ι → σ → List (Except ε ρ) × σ
  | [], s => ([], s)
  | a :: l, s =>
    let (x, t) := tryOne run a s
    let (xs, u) := tryAll run l t
    (x :: xs, u)

/-- The same error, or the same result and related states. -/
def Matches (R : σ → τ → Prop) (x : Except ε (σ × ρ)) (y : Except ε (τ × ρ)) : Prop :=
  (∃ e, x = .error e ∧ y = .error e) ∨ ∃ s t r, x = .ok (s, r) ∧ y = .ok (t, r) ∧ R s t

variable {R : σ → τ → Prop} {run : ι → σ → Except ε (σ × ρ)} {run' : ι → τ → Except ε (τ × ρ)}
  {s : σ} {t : τ} {l : List ι}

lemma tryOne_matches {a : ι} (h : Matches R (run a s) (run' a t)) (hR : R s t) :
    (tryOne run a s).1 = (tryOne run' a t).1 ∧ R (tryOne run a s).2 (tryOne run' a t).2 := by
  rcases h with ⟨e, hx, hy⟩ | ⟨s', t', r, hx, hy, hR'⟩
  · simp only [tryOne, hx, hy, true_and]
    exact hR
  · simp only [tryOne, hx, hy, true_and]
    exact hR'

/-- **A run shows the same in both systems.** -/
theorem tryAll_matches (h : ∀ a ∈ l, ∀ s t, R s t → Matches R (run a s) (run' a t)) (hR : R s t) :
    (tryAll run l s).1 = (tryAll run' l t).1 ∧ R (tryAll run l s).2 (tryAll run' l t).2 := by
  induction l generalizing s t with
  | nil => exact ⟨rfl, hR⟩
  | cons a l ih =>
      obtain ⟨hone, hR'⟩ := tryOne_matches (h a List.mem_cons_self s t hR) hR
      obtain ⟨hall, hlast⟩ := ih (fun b hb => h b (List.mem_cons_of_mem _ hb)) hR'
      simp only [tryAll]
      exact ⟨congrArg₂ List.cons hone hall, hlast⟩

end Checked
