import FloorProgram.Core.Checked

/-!
# Numbers in decimal

Unsigned numbers of a fixed width as text, read digit by digit with every step checked.

* `parse` — `str::parse` of Rust.
* `digits_eq_some` — what it accepts: digits only, of a number that fits.
* `parse_repr` — it reads what `to_string` has written.
-/

namespace Decimal

open Checked

/-- The value of a digit. -/
def digit (c : Char) : Option ℕ := if c.isDigit = true then some (c.toNat - '0'.toNat) else none

/-- Read digits behind those that have been read. -/
def digits (w : ℕ) : ℕ → List Char → Option ℕ
  | acc, [] => some acc
  | acc, c :: cs => do
    let d ← digit c
    let tens ← checkedMul w acc 10
    let acc' ← checkedAdd w tens d
    digits w acc' cs

/-- Read a number of `w` bits.  One plus sign may stand before the digits. -/
def parse (w : ℕ) (s : String) : Option ℕ :=
  match s.toList with
  | [] => none
  | ['+'] => none
  | '+' :: cs => digits w 0 cs
  | cs => digits w 0 cs

variable {w n acc : ℕ} {c : Char} {cs : List Char}

/-- Further digits only make a number larger. -/
lemma le_ofDigitChars (acc : ℕ) (cs : List Char) : acc ≤ Nat.ofDigitChars 10 cs acc := by
  induction cs generalizing acc with
  | nil => simp
  | cons c cs ih =>
      rw [Nat.ofDigitChars_cons]
      have := ih (10 * acc + (c.toNat - '0'.toNat))
      omega

/-- **What is read**: digits, of a number that fits.  The number is the largest of those on the way
to it, so no step before the last can fail. -/
theorem digits_eq_some (hacc : acc < 2 ^ w) :
    digits w acc cs = some n ↔
      (∀ c ∈ cs, c.isDigit = true) ∧ Nat.ofDigitChars 10 cs acc = n ∧ n < 2 ^ w := by
  induction cs generalizing acc with
  | nil =>
      simp only [digits, Option.some.injEq, List.not_mem_nil, false_implies, implies_true, true_and,
        Nat.ofDigitChars_nil]
      constructor
      · rintro rfl
        exact ⟨rfl, hacc⟩
      · exact And.left
  | cons c cs ih =>
      have hle := le_ofDigitChars (10 * acc + (c.toNat - '0'.toNat)) cs
      simp only [digits, digit, Option.bind_eq_bind, Option.bind_eq_some_iff, checkedMul_eq_some,
        checkedAdd_eq_some, List.forall_mem_cons, Nat.ofDigitChars_cons, mul_comm 10 acc] at hle ⊢
      constructor
      · rintro ⟨d, hd, _, ⟨-, rfl⟩, _, ⟨hlt, rfl⟩, hrest⟩
        split_ifs at hd with hc
        obtain rfl := Option.some.inj hd
        obtain ⟨hcs, hn, hfits⟩ := (ih hlt).mp hrest
        exact ⟨⟨hc, hcs⟩, hn, hfits⟩
      · rintro ⟨⟨hc, hcs⟩, hn, hfits⟩
        have hlt : acc * 10 + (c.toNat - '0'.toNat) < 2 ^ w := by omega
        refine ⟨_, if_pos hc, _, ⟨by omega, rfl⟩, _, ⟨hlt, rfl⟩, (ih hlt).mpr ⟨hcs, hn, hfits⟩⟩

/-- Without a sign, a number is its digits. -/
lemma parse_of_isDigit {s : String} (hs : s.toList = c :: cs) (hc : c.isDigit = true) :
    parse w s = digits w 0 (c :: cs) := by
  have hsign : c ≠ '+' := by
    rintro rfl
    cases hc
  unfold parse
  rw [hs]
  split
  · rename_i h
    cases h
  · rename_i h
    exact absurd (List.cons.inj h).1 hsign
  · rename_i h
    exact absurd (List.cons.inj h).1 hsign
  · rfl

/-- **The round trip.** -/
theorem parse_repr (h : n < 2 ^ w) : parse w n.repr = some n := by
  have hdigits : ∀ c ∈ Nat.toDigits 10 n, c.isDigit = true := fun c hc =>
    Nat.isDigit_of_mem_toDigits (by decide) (by decide) hc
  obtain ⟨c, cs, hcs⟩ := List.exists_cons_of_ne_nil (Nat.toDigits_ne_nil (n := n) (b := 10))
  have hlist : n.repr.toList = c :: cs := Nat.toList_repr.trans hcs
  rw [parse_of_isDigit hlist (hdigits c (by simp [hcs])), ← hcs,
    digits_eq_some (Nat.two_pow_pos w)]
  exact ⟨hdigits, Nat.ofDigitChars_ten_toDigits, h⟩

example : parse 64 "18446744073709551616" = none := by decide

end Decimal
