import FloorProgram.Core.Keyed
import Mathlib.Data.Finsupp.Order
import Mathlib.Data.Finsupp.Weight
import Mathlib.Tactic.Abel

/-!
# Keyed lists as finitely supported functions

What a keyed list is about, once the positions of its records are forgotten: under each key, the
value recorded there.  `tally` is that function, and this file says what the operations on keyed
lists do to it.

* `sum_map_modifyFirst`, `sum_map_filter_ne`, `sum_map_swapRemove` — sums over the records, in any
  commutative monoid.  No subtraction is available there, so what went away stands on the left.
* `tally_modifyFirst`, `tally_swapRemove`, `tally_append`, … — the same for the tally.
* `tally_apply` — with distinct keys, the tally is lookup by key.
-/

namespace Keyed

variable {α κ M : Type} [AddCommMonoid M] {key : α → κ} {k : κ} {l l' : List α} {a : α} {f : α → α}

/-! ## Sums over the records -/

section Sums

variable [DecidableEq κ] {g : α → M}

/-- An update in place changes a sum by the element's part. -/
lemma sum_map_modifyFirst (h : lookup key k l = some a) :
    ((modifyFirst key k f l).map g).sum + g a = (l.map g).sum + g (f a) := by
  obtain ⟨pre, post, rfl, hnew, -⟩ := modifyFirst_split (f := f) h
  rw [hnew]
  simp only [List.map_append, List.map_cons, List.sum_append, List.sum_cons]
  abel

/-- With distinct keys, one record goes when every record under its key is dropped. -/
lemma perm_cons_filter_ne (hl : NodupKeys key l) (h : lookup key k l = some a) :
    l.Perm (a :: l.filter fun b => key b ≠ k) := by
  have hk := lookup_key h
  obtain ⟨pre, post, rfl, hpre⟩ := lookup_split h
  have hpost : ∀ b ∈ post, key b ≠ k := by
    intro b hb heq
    rw [NodupKeys, List.map_append, List.map_cons] at hl
    have := (List.nodup_cons.mp (List.Nodup.of_append_right hl)).1
    exact this (List.mem_map.mpr ⟨b, hb, heq.trans hk.symm⟩)
  have h₁ : pre.filter (fun b => decide (key b ≠ k)) = pre :=
    List.filter_eq_self.mpr fun b hb => decide_eq_true (hpre b hb)
  have h₂ : post.filter (fun b => decide (key b ≠ k)) = post :=
    List.filter_eq_self.mpr fun b hb => decide_eq_true (hpost b hb)
  rw [List.filter_append, List.filter_cons_of_neg (by simpa using hk), h₁, h₂]
  exact List.perm_middle

/-- Removing a key takes its element's part out of a sum. -/
lemma sum_map_filter_ne (hl : NodupKeys key l) (h : lookup key k l = some a) :
    (l.map g).sum = g a + ((l.filter fun b => key b ≠ k).map g).sum := by
  rw [((perm_cons_filter_ne hl h).map g).sum_eq, List.map_cons, List.sum_cons]

omit [DecidableEq κ] in
/-- Removing an index takes its element's part out of a sum. -/
lemma sum_map_swapRemove {i : ℕ} (hi : i < l.length) :
    (l.map g).sum = g l[i] + ((swapRemove i l).map g).sum := by
  rw [((perm_cons_swapRemove hi).map g).sum_eq, List.map_cons, List.sum_cons]

end Sums

/-! ## Tallies -/

/-- The values `v` of the records, added up under each key. -/
noncomputable def tally (key : α → κ) (v : α → M) (l : List α) : κ →₀ M :=
  (l.map fun a => Finsupp.single (key a) (v a)).sum

variable {u v : α → M}

@[simp] lemma tally_nil : tally key v ([] : List α) = 0 := rfl

/-- An element adds its value at its key. -/
@[simp] lemma tally_cons : tally key v (a :: l) = Finsupp.single (key a) (v a) + tally key v l := by
  rw [tally, List.map_cons, List.sum_cons, tally]

@[simp] lemma tally_append : tally key v (l ++ l') = tally key v l + tally key v l' := by
  rw [tally, List.map_append, List.sum_append, tally, tally]

/-- The tally of a sum of two values is the sum of their tallies. -/
lemma tally_add : tally key (fun a => u a + v a) l = tally key u l + tally key v l := by
  induction l with
  | nil => simp
  | cons a l ih => rw [tally_cons, tally_cons, tally_cons, ih, Finsupp.single_add]; abel

/-- An update in place changes the tally at its key. -/
lemma tally_modifyFirst [DecidableEq κ] (hkey : key (f a) = key a)
    (h : lookup key k l = some a) :
    tally key v (modifyFirst key k f l) + Finsupp.single k (v a)
      = tally key v l + Finsupp.single k (v (f a)) := by
  have hsum := sum_map_modifyFirst (f := f) (g := fun a => Finsupp.single (key a) (v a)) h
  rwa [hkey, lookup_key h] at hsum

/-- An update that keeps the value keeps the tally. -/
lemma tally_modifyFirst_of_eq [DecidableEq κ] (hkey : ∀ a, key (f a) = key a)
    (hv : ∀ a, v (f a) = v a) : tally key v (modifyFirst key k f l) = tally key v l :=
  congrArg List.sum (map_modifyFirst fun a => by rw [hkey, hv])

/-- Removing an index takes its value away at its key. -/
lemma tally_swapRemove {i : ℕ} (hi : i < l.length) :
    tally key v l = Finsupp.single (key l[i]) (v l[i]) + tally key v (swapRemove i l) :=
  sum_map_swapRemove (g := fun a => Finsupp.single (key a) (v a)) hi

/-- Lists that agree on keys and values record by record have the same tally. -/
lemma tally_of_forall₂ {R : α → α → Prop} (h : List.Forall₂ R l l')
    (hR : ∀ a b, R a b → key b = key a ∧ v b = u a) : tally key v l' = tally key u l :=
  congrArg List.sum (map_eq_of_forall₂ h fun a b hab => by rw [(hR a b hab).1, (hR a b hab).2])

/-- Where all values are zero there is nothing to tally. -/
lemma tally_eq_zero (h : ∀ a ∈ l, v a = 0) : tally key v l = 0 := by
  induction l with
  | nil => rfl
  | cons a l ih =>
      rw [tally_cons, h a List.mem_cons_self, Finsupp.single_zero, zero_add]
      exact ih fun b hb => h b (List.mem_cons_of_mem _ hb)

/-- Under one key, a tally is lookup. -/
lemma tally_apply [DecidableEq κ] {v : α → ℕ} (hl : NodupKeys key l) (k : κ) :
    tally key v l k = valueOf key v k l := by
  induction l with
  | nil => rfl
  | cons a l ih =>
      rw [NodupKeys, List.map_cons, List.nodup_cons] at hl
      rw [tally_cons, Finsupp.add_apply, ih hl.2]
      by_cases hk : key a = k
      · have hrest : valueOf key v k l = 0 := valueOf_of_forall_ne fun b hb heq =>
          hl.1 (List.mem_map.mpr ⟨b, hb, heq.trans hk.symm⟩)
        rw [hk, Finsupp.single_eq_same, hrest]
        simp [valueOf, lookup, hk]
      · rw [Finsupp.single_eq_of_ne (Ne.symm hk), zero_add]
        simp [valueOf, lookup, hk]

/-- The total of a tally is the sum over the list. -/
lemma degree_tally (v : α → M) : (tally key v l).degree = (l.map v).sum := by
  induction l with
  | nil => simp
  | cons a l ih => rw [tally_cons, map_add, Finsupp.degree_single, ih, List.map_cons, List.sum_cons]

section Nat

variable [DecidableEq κ] {v : α → ℕ} {n : ℕ}

/-- An update that adds `n` under `k`. -/
lemma tally_modifyFirst_add (hkey : key (f a) = key a) (h : lookup key k l = some a)
    (hv : v (f a) = v a + n) :
    tally key v (modifyFirst key k f l) = tally key v l + Finsupp.single k n := by
  have hsum := tally_modifyFirst (v := v) hkey h
  rw [hv, add_comm (v a), Finsupp.single_add, ← add_assoc] at hsum
  exact add_right_cancel hsum

/-- An update that takes `n` away under `k`. -/
lemma tally_modifyFirst_sub (hkey : key (f a) = key a) (h : lookup key k l = some a)
    (hv : v (f a) + n = v a) :
    tally key v (modifyFirst key k f l) = tally key v l - Finsupp.single k n := by
  have hsum := tally_modifyFirst (v := v) hkey h
  rw [← hv, add_comm (v (f a)), Finsupp.single_add, ← add_assoc] at hsum
  exact eq_tsub_of_add_eq (add_right_cancel hsum)

/-- With distinct keys, a tally is positive at the keys of the positive values. -/
lemma mem_support_tally (hl : NodupKeys key l) :
    k ∈ (tally key v l).support ↔ ∃ a ∈ l, key a = k ∧ 0 < v a := by
  rw [Finsupp.mem_support_iff, tally_apply hl]
  constructor
  · intro hne
    cases h : lookup key k l with
    | none => simp [valueOf, h] at hne
    | some a =>
        refine ⟨a, lookup_mem h, lookup_key h, Nat.pos_of_ne_zero fun h0 => hne ?_⟩
        simp [valueOf, h, h0]
  · rintro ⟨a, ha, hk, hpos⟩
    rw [valueOf_of_mem hl ha hk]
    exact hpos.ne'

end Nat

/-- A pointwise comparison of the values is one of the tallies. -/
lemma tally_le_of_forall₂ {u v : α → ℕ} {R : α → α → Prop} (h : List.Forall₂ R l l')
    (hR : ∀ a b, R a b → key b = key a ∧ v b ≤ u a) : tally key v l' ≤ tally key u l := by
  induction h with
  | nil => exact le_rfl
  | @cons a b l l' hab _ ih =>
      rw [tally_cons, tally_cons, (hR a b hab).1]
      exact add_le_add (Finsupp.single_mono (hR a b hab).2) ih

end Keyed
