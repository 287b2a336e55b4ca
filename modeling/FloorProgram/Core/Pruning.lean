import Mathlib.Data.Finset.Card
import Mathlib.Order.Bounds.Basic

/-!
# Pruning a finite set

A set is pruned by dropping, in one pass, every element that fails a test which looks at the whole
set.  Dropping elements may make others fail, so the passes are repeated until one drops nothing.

If whoever passes the test of a set also passes the test of any larger one (`Hereditary`), the order
of the drops does not matter: a set all of whose elements pass its own test (`Stable`) survives
every pass over a set that contains it (`Stable.subset_prune`), so what the passes end with is the
greatest stable subset (`isGreatest_iterate_prune`).  Every pass but the last drops an element
(`card_prune_lt`), so there are at most one more passes than elements.
-/

namespace Pruning

variable {ι : Type} (keep : Finset ι → ι → Prop)

/-- Every element passes the test of the set. -/
def Stable (S : Finset ι) : Prop := ∀ i ∈ S, keep S i

/-- Whoever passes the test of a set it belongs to passes the test of any larger set. -/
def Hereditary : Prop := ∀ ⦃S T : Finset ι⦄ ⦃i : ι⦄, S ⊆ T → i ∈ S → keep S i → keep T i

variable [∀ S, DecidablePred (keep S)]

/-- One pass. -/
def prune (S : Finset ι) : Finset ι := S.filter (keep S)

variable {keep} {S T : Finset ι}

lemma prune_subset : prune keep S ⊆ S := Finset.filter_subset _ _

lemma prune_eq_self : prune keep S = S ↔ Stable keep S := by
  rw [prune, Finset.filter_eq_self]
  rfl

/-- A pass over a set that is not stable drops an element. -/
lemma card_prune_lt (h : ¬ Stable keep S) : (prune keep S).card < S.card := by
  refine Finset.card_lt_card (Finset.ssubset_iff_subset_ne.mpr ⟨prune_subset, fun heq => ?_⟩)
  exact h (prune_eq_self.mp heq)

/-- **A stable set survives** the pass over any set that contains it. -/
lemma Stable.subset_prune (hk : Hereditary keep) (hT : Stable keep T) (hTS : T ⊆ S) :
    T ⊆ prune keep S := by
  intro i hi
  exact Finset.mem_filter.mpr ⟨hTS hi, hk hTS hi (hT i hi)⟩

lemma iterate_prune_subset (n : ℕ) : (prune keep)^[n] S ⊆ S := by
  induction n with
  | zero => exact Finset.Subset.refl S
  | succ n ih =>
      rw [Function.iterate_succ_apply']
      exact prune_subset.trans ih

lemma Stable.subset_iterate (hk : Hereditary keep) (hT : Stable keep T) (hTS : T ⊆ S) (n : ℕ) :
    T ⊆ (prune keep)^[n] S := by
  induction n with
  | zero => exact hTS
  | succ n ih =>
      rw [Function.iterate_succ_apply']
      exact hT.subset_prune hk ih

/-- **What the passes end with** is the greatest stable subset. -/
theorem isGreatest_iterate_prune (hk : Hereditary keep) {n : ℕ}
    (hstable : Stable keep ((prune keep)^[n] S)) :
    IsGreatest {T | T ⊆ S ∧ Stable keep T} ((prune keep)^[n] S) := by
  refine ⟨⟨iterate_prune_subset n, hstable⟩, ?_⟩
  rintro T ⟨hTS, hT⟩
  exact hT.subset_iterate hk hTS n

end Pruning
