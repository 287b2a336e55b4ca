import Mathlib.Algebra.BigOperators.Ring.List
import Mathlib.Algebra.Order.BigOperators.Group.List
import Mathlib.Tactic.Linarith
import Mathlib.Tactic.Ring

/-!
# Pro-rata shares, rounded down

Splitting an amount over weights with integer division loses a little at every element.  The lemmas
here bound how much: a sum of floors is at most the floor of the sum, and short of it by less than
one unit per element.  `remainder_le_room` is the counting fact behind handing the lost units out
one by one: there are always enough elements whose share is still below their weight.
-/

namespace ProRata

variable {α : Type}

/-- The part of `amount` that falls to weight `x` out of `total`. -/
def share (amount total x : ℕ) : ℕ := amount * x / total

lemma lt_share_succ_mul {total : ℕ} (amount x : ℕ) (h : 0 < total) :
    amount * x < (share amount total x + 1) * total := by
  have := Nat.lt_mul_div_succ (amount * x) h
  rwa [Nat.mul_comm total] at this

/-- No share exceeds its weight as long as the amount does not exceed the total. -/
lemma share_le {amount total x : ℕ} (h : amount ≤ total) : share amount total x ≤ x := by
  rcases Nat.eq_zero_or_pos total with rfl | hpos
  · simp [share]
  · apply Nat.div_le_of_le_mul
    exact Nat.mul_le_mul_right x h

/-- Buying at `p` for a scale of `s`, rounded down, and pricing the result with a bonus again gives
back the amount paid exactly if the worth of the bonus makes up for the residue, and for less than
one unit more. -/
lemma repriced_eq_iff {s p : ℕ} (paid bonus : ℕ) (hs : 0 < s) :
    (paid * s / p + bonus) * p / s = paid ↔
      paid * s % p ≤ bonus * p ∧ bonus * p < s + paid * s % p := by
  have hsplit : paid * s / p * p + paid * s % p = paid * s := Nat.div_add_mod' _ _
  rw [Nat.div_eq_iff hs, Nat.add_mul]
  omega

/-! ## Sums of floors -/

/-- A sum of floors, times the divisor, is at most the sum. -/
lemma sum_div_mul_le (l : List α) (f : α → ℕ) (d : ℕ) :
    (l.map fun a => f a / d).sum * d ≤ (l.map f).sum := by
  induction l with
  | nil => simp
  | cons a l ih =>
      have := Nat.div_mul_le_self (f a) d
      simp only [List.map_cons, List.sum_cons, Nat.add_mul]
      omega

/-- A sum of floors falls short of the sum by less than one divisor per element. -/
lemma sum_lt_sum_div_mul (l : List α) (f : α → ℕ) {d : ℕ} (hd : 0 < d) :
    (l.map f).sum + l.length ≤ ((l.map fun a => f a / d).sum + l.length) * d := by
  induction l with
  | nil => simp
  | cons a l ih =>
      have := Nat.lt_mul_div_succ (f a) hd
      simp only [List.map_cons, List.sum_cons, List.length_cons]
      have e : (f a / d + (l.map fun a => f a / d).sum + (l.length + 1)) * d
          = d * (f a / d + 1) + ((l.map fun a => f a / d).sum + l.length) * d := by ring
      omega

/-- The shares of a list of weights sum to at most the amount. -/
lemma sum_share_le (l : List α) (x : α → ℕ) (amount : ℕ) {total : ℕ}
    (htotal : (l.map x).sum = total) :
    (l.map fun a => share amount total (x a)).sum ≤ amount := by
  rcases Nat.eq_zero_or_pos total with h0 | hpos
  · simp [h0, share]
  · have := sum_div_mul_le l (fun a => amount * x a) total
    rw [List.sum_map_mul_left, htotal] at this
    exact Nat.le_of_mul_le_mul_right this hpos

/-- The shares fall short of the amount by less than one unit per weight. -/
lemma amount_lt_sum_share (l : List α) (x : α → ℕ) (amount : ℕ) {total : ℕ}
    (htotal : (l.map x).sum = total) (hpos : 0 < total) :
    amount < (l.map fun a => share amount total (x a)).sum + l.length := by
  have hl : 0 < l.length := by
    cases l with
    | nil => simp at htotal; omega
    | cons a l => simp
  have := sum_lt_sum_div_mul l (fun a => amount * x a) hpos
  rw [List.sum_map_mul_left, htotal] at this
  by_contra hcon
  have hle := Nat.mul_le_mul_right total (Nat.le_of_not_lt hcon)
  simp only [share] at hle
  omega

/-! ## Handing out the remainder -/

/-- The amount that falls to an element is its share and a division remainder, and an element with a
non-zero remainder still has room. -/
lemma sum_mul_le_shares_add_room (l : List α) (x : α → ℕ) {amount total : ℕ} (hpos : 0 < total)
    (hle : amount ≤ total) :
    (l.map fun a => amount * x a).sum
      ≤ ((l.map fun a => share amount total (x a)).sum
        + (l.filter fun a => decide (share amount total (x a) < x a)).length) * total := by
  induction l with
  | nil => simp
  | cons a l ih =>
      have hsplit := Nat.div_add_mod (amount * x a) total
      have hmod := Nat.mod_lt (amount * x a) hpos
      simp only [List.map_cons, List.sum_cons, List.filter_cons]
      by_cases hroom : share amount total (x a) < x a
      · have e : (share amount total (x a) + (l.map fun a => share amount total (x a)).sum
            + ((l.filter fun a => decide (share amount total (x a) < x a)).length + 1)) * total
            = total * share amount total (x a) + total
              + ((l.map fun a => share amount total (x a)).sum
                + (l.filter fun a => decide (share amount total (x a) < x a)).length) * total := by
          ring
        simp only [hroom, decide_true, if_true, List.length_cons]
        rw [e]
        simp only [share] at ih ⊢
        omega
      · -- no room left means the share is the whole weight, so nothing was lost here
        have hshare : share amount total (x a) = x a :=
          le_antisymm (share_le hle) (Nat.le_of_not_lt hroom)
        have hexact : amount * x a ≤ share amount total (x a) * total := by
          rw [hshare, Nat.mul_comm (x a)]
          exact Nat.mul_le_mul_right _ hle
        simp only [hroom, decide_false, Bool.false_eq_true, if_false]
        rw [Nat.add_assoc, Nat.add_mul]
        omega

/-- **Enough room for the remainder.**  When at most the total weight is distributed, the units
lost to rounding are at most as many as there are elements whose share is below their weight. -/
lemma remainder_le_room (l : List α) (x : α → ℕ) {amount total : ℕ}
    (htotal : (l.map x).sum = total) (hpos : 0 < total) (hle : amount ≤ total) :
    amount ≤ (l.map fun a => share amount total (x a)).sum
      + (l.filter fun a => decide (share amount total (x a) < x a)).length := by
  have hsum := sum_mul_le_shares_add_room l x hpos hle
  rw [List.sum_map_mul_left, htotal] at hsum
  exact Nat.le_of_mul_le_mul_right hsum hpos

end ProRata
